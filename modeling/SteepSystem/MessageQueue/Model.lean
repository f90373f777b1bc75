import SteepSystem.Lib.Handover
import SteepSystem.MessageQueue.Blocks

/-!
The mail queue between two processes. In the SMTP server `flusher.c` numbers a mail, and the thread
of `message_enqueue.c` puts it into a block of the tape, which is shared memory, or into a file, and
tells of it. In the delivery the thread of `message_dequeue.c` loads what it is told of or what it
finds, and the threads of the transporter get it and put it back. They all go on in any order; what
one of them does without being seen by another is one step.
-/

namespace SteepSystem.MessageQueue

open SteepSystem.Lib.Bytes SteepSystem.Lib.CStrings SteepSystem.Lib.Handover

/-- Where a message is: in a block of the tape, or in a file of the directory `mess`. -/
inductive Place
  | tape (pos : ℕ)
  | mess (id : ℕ)
  deriving DecidableEq

structure Params where
  tapeUnits : ℕ
  maxMemory : ℕ
  hostId : Bytes

def Place.isTape : Place → Bool
  | .tape _ => true
  | .mess _ => false

/-- `g_message_units` -/
def Params.units (p : Params) : ℕ := p.tapeUnits + p.maxMemory / (64 * 1024)

/-- How many places `g_tape_hash` or `g_mess_hash` can hold. -/
def Params.capacity (p : Params) (pl : Place) : ℕ :=
  if pl.isTape then 2 * p.tapeUnits + 1 else 2 * p.units + 1

/-- `FLUSH_ENTITY`. The strings come without a zero from the parser of the commands. -/
structure FlushEntity where
  clientIp : Bytes
  parsedDomain : Bytes
  helloDomain : Bytes
  extras : List (Bytes × Bytes)
  isRelay : Bool
  isOutbound : Bool
  isSpam : Bool
  envelopFrom : Bytes
  rcptTo : List Bytes
  sender : 0 ∉ envelopFrom
  rcpt : ∀ r ∈ rcptTo, r ≠ [] ∧ 0 ∉ r

/-- What `stream_copyline` gives, one piece after another, each with whether it ends a line; and the
end of the stream where it does not end a line. -/
structure Copied where
  pieces : List (Bytes × Bool)
  rest : Option Bytes

def Copied.text (c : Copied) : Bytes :=
  c.pieces.flatMap (fun piece => if piece.2 then piece.1 ++ [13, 10] else piece.1) ++
    c.rest.getD []

namespace FlushEntity

/-- The lines that are put in front of a mail. -/
def head (e : FlushEntity) (hostId time : Bytes) : Bytes :=
  bytes "X-Lasthop: " ++ e.clientIp ++ bytes "\r\nReceived: from " ++ e.parsedDomain ++
    bytes " (helo " ++ e.helloDomain ++ bytes ")(" ++ e.parsedDomain ++ bytes "@" ++ e.clientIp ++
    bytes ")\r\n\tby " ++ hostId ++ bytes " with SMTP; " ++ time ++ bytes "\r\n" ++
    e.extras.flatMap fun x => x.1 ++ bytes ": " ++ x.2 ++ bytes "\r\n"

/-- `SMTP_IN`, `SMTP_OUT` and `SMTP_RELAY` -/
def smtpType (e : FlushEntity) : ℤ := if e.isRelay then 3 else if e.isOutbound then 2 else 1

def message (e : FlushEntity) (id : ℕ) (mail : Bytes) : Message where
  mail
  flushId := id
  boundType := e.smtpType
  isSpam := if e.isSpam then 1 else 0
  envelopFrom := e.envelopFrom
  envelopRcpt := e.rcptTo

end FlushEntity

/-- A node of `message_dequeue.c`; the buffer is what has been read of a file. -/
structure Node where
  place : Place
  size : ℕ
  buffer : Bytes
  deriving DecidableEq

/-- Both processes, with what they share: the tape, the files and the message queue. `writing` is
the block that is being written; a block is unused while it begins with a zero. -/
structure Queue where
  currentId : ℕ
  pending : List ℕ
  lastPos : ℕ
  writing : Option ℕ
  tape : ℕ → Bytes
  mess : ℕ → Option Bytes
  told : List Place
  loader : Loader Place
  used : List Node
  taken : List Node
  cleared : List Node
  removed : List Node
  hash : List Place
  free : ℕ
  currentMem : ℕ

inductive Event
  /-- `flusher_increase_max_ID` -/
  | newId
  /-- An empty block is searched for. -/
  | findBlock
  /-- The block is complete, and whether the delivery could be told. -/
  | saveTape (id : ℕ) (e : FlushEntity) (c : Copied) (time : Bytes) (told : Bool)
  /-- The block is left, with something behind the length. -/
  | leaveBlock (bytes : Bytes)
  | savePart (id : ℕ) (e : FlushEntity) (c : Copied) (time : Bytes)
  | saveMess (id : ℕ) (e : FlushEntity) (c : Copied) (time : Bytes) (told : Bool)
  /-- `message_enqueue_cancel`, or a file that could not be written. -/
  | dropMess (id : ℕ)
  | receive
  /-- A complete message is found where the thread looks by itself; it does so at any time. -/
  | scan (pl : Place)
  /-- What has been found is loaded, unless memory or a file is missing. -/
  | load (ok : Bool)
  | add
  /-- `message_dequeue_get` -/
  | get
  /-- The three parts of `message_dequeue_put`. -/
  | clear (node : Node)
  | forget (node : Node)
  | putToFree (node : Node)

/-- The message that is saved by a step, and the one that is handed to the transporter. -/
structure Record where
  saved : Option Message
  handed : Option Message

def Record.nothing : Record := ⟨none, none⟩

namespace Queue

/-- Nothing is stored; of an empty block only the length counts. -/
def start (p : Params) (currentId : ℕ) : Queue where
  currentId
  pending := []
  lastPos := 0
  writing := none
  tape _ := le 8 0
  mess _ := none
  told := []
  loader := .idle
  used := []
  taken := []
  cleared := []
  removed := []
  hash := []
  free := p.units
  currentMem := 0

def unused (n : Queue) (pos : ℕ) : Bool := readInt (n.tape pos) 0 = 0

/-- The blocks from the last place on, and then those before it. -/
def emptyBlock (p : Params) (n : Queue) : Option ℕ :=
  ((List.range p.tapeUnits).drop n.lastPos ++ List.range n.lastPos).find? n.unused

/-- What the file has behind the eight bytes for the length. -/
def written (p : Params) (n : Queue) (id : ℕ) (e : FlushEntity) (c : Copied) (time : Bytes) :
    Bytes :=
  match n.mess id with
  | none => e.head p.hostId time ++ c.text
  | some content => content.drop 8 ++ c.text

def tell (n : Queue) (told : Bool) (pl : Place) : List Place :=
  if told then n.told ++ [pl] else n.told

/-- The memory that a node points to. -/
def memory (n : Queue) (node : Node) : Bytes :=
  match node.place with
  | .tape pos => n.tape pos
  | .mess _ => node.buffer

/-- `int_hash_query`, which comes first when a place is to be loaded. -/
def query (n : Queue) (pl : Place) : Queue :=
  if pl ∈ n.hash then n else { n with loader := .reading pl }

/-- The hash table for the place can take no more. -/
def full (p : Params) (n : Queue) (pl : Place) : Bool :=
  p.capacity pl ≤ (n.hash.filter fun pl' => pl'.isTape = pl.isTape).length

/-- `int_hash_add` -/
def remember (p : Params) (n : Queue) (pl : Place) : List Place :=
  if n.full p pl ∨ pl ∈ n.hash then n.hash else pl :: n.hash

/-- There is a message to be seen. -/
def seen (p : Params) (n : Queue) : Place → Bool
  | .tape pos => pos < p.tapeUnits ∧ n.unused pos = false
  | .mess id =>
    match n.mess id with
    | none => false
    | some content => 8 ≤ content.length ∧ ofLE (content.take 8) ≠ 0

def putToUsed (n : Queue) (node : Node) : Queue :=
  { n with
    loader := .adding node.place
    used := n.used ++ [node]
    free := n.free - 1
    currentMem := n.currentMem + node.size }

/-- `message_dequeue_load_from_tape` and `message_dequeue_load_from_mess`; where there is no node
left, the memory stays counted. -/
def load (p : Params) (n : Queue) (ok : Bool) : Place → Queue
  | .tape pos =>
    if n.unused pos ∨ n.free = 0 then { n with loader := .idle }
    else n.putToUsed ⟨.tape pos, 0, []⟩
  | .mess id =>
    match n.mess id with
    | none => { n with loader := .idle }
    | some content =>
      let size := ((content.length - 1) / (64 * 1024) + 1) * (64 * 1024)
      if p.maxMemory < n.currentMem + size then { n with loader := .idle }
      else if n.free = 0 then { n with loader := .idle, currentMem := n.currentMem + size }
      else if ok = false ∨ readInt content 0 = 0 then { n with loader := .idle }
      else n.putToUsed ⟨.mess id, size, content⟩

/-- The place can be used again. -/
def clear (n : Queue) (node : Node) : Queue :=
  let n := { n with taken := n.taken.erase node, cleared := n.cleared ++ [node] }
  match node.place with
  | .tape pos => { n with tape := Function.update n.tape pos (le 4 0 ++ (n.tape pos).drop 4) }
  | .mess id => { n with mess := Function.update n.mess id none }

def step (p : Params) (n : Queue) : Event → Option (Queue × Record)
  | .newId =>
    let id := if n.currentId = 0x7FFFFFFF then 1 else n.currentId + 1
    some ({ n with currentId := id, pending := id :: n.pending }, .nothing)
  | .findBlock =>
    if n.writing ≠ none then none
    else (n.emptyBlock p).map fun pos => ({ n with writing := some pos, lastPos := 0 }, .nothing)
  | .saveTape id e c time told =>
    match n.writing with
    | none => none
    | some pos =>
      let m := e.message id (e.head p.hostId time ++ c.text)
      if id ∉ n.pending ∨ n.mess id ≠ none then none
      -- What does not fit would be written beyond the block.
      else if c.rest ≠ none ∨ 128 * 1024 < m.block.length then none
      else
        some ({ n with
          writing := none
          pending := n.pending.erase id
          tape := Function.update n.tape pos (m.block ++ (n.tape pos).drop m.block.length)
          told := n.tell told (.tape pos) }, ⟨some m, none⟩)
  | .leaveBlock bytes =>
    n.writing.map fun pos =>
      ({ n with
        writing := none
        tape := Function.update n.tape pos ((n.tape pos).take 8 ++ bytes) }, .nothing)
  | .savePart id e c time =>
    if id ∉ n.pending then none
    else
      some ({ n with
        mess := Function.update n.mess id (some (le 8 0 ++ n.written p id e c time)) }, .nothing)
  | .saveMess id e c time told =>
    let m := e.message id (n.written p id e c time)
    if id ∉ n.pending ∨ 2 ^ 64 ≤ m.mail.length then none
    else
      some ({ n with
        pending := n.pending.erase id
        mess := Function.update n.mess id (some m.block)
        told := n.tell told (.mess id) }, ⟨some m, none⟩)
  | .dropMess id =>
    if id ∉ n.pending then none
    else
      some ({ n with
        pending := n.pending.erase id
        mess := Function.update n.mess id none }, .nothing)
  | .receive =>
    match n.told with
    | [] => none
    | pl :: told => if n.loader = .idle then some ({ n with told }.query pl, .nothing) else none
  | .scan pl =>
    if n.loader = .idle ∧ n.seen p pl then some (n.query pl, .nothing) else none
  | .load ok =>
    match n.loader with
    | .reading pl => some (n.load p ok pl, .nothing)
    | _ => none
  | .add =>
    match n.loader with
    | .adding pl => some ({ n with loader := .idle, hash := n.remember p pl }, .nothing)
    | _ => none
  | .get =>
    match n.used with
    | [] => none
    | node :: used =>
      some ({ n with used, taken := n.taken ++ [node] },
        ⟨none, some (retrieveToMessage (n.memory node))⟩)
  | .clear node => if node ∈ n.taken then some (n.clear node, .nothing) else none
  | .forget node =>
    if node ∈ n.cleared then
      some ({ n with
        hash := n.hash.filter (· ≠ node.place)
        cleared := n.cleared.erase node
        removed := n.removed ++ [node] }, .nothing)
    else none
  | .putToFree node =>
    if node ∈ n.removed then
      some ({ n with
        removed := n.removed.erase node
        free := n.free + 1
        currentMem := n.currentMem - node.size }, .nothing)
    else none

end Queue

end SteepSystem.MessageQueue
