import Mathlib.Tactic

/-!
The index that `midb` keeps of a mailbox (`midb/mail_engine/mail_engine.c`): its rows of folders
and messages, a run of `mail_engine_sync_contents` on a folder, and what the notifications about
messages do. Every call that can fail is answered by an oracle.
-/

namespace SteepSystem.MailEngine

/-- A row of `messages`, without the columns that are read from the digest. -/
structure Message where
  messageId : ℕ
  folderId : ℕ
  midString : String
  modTime : ℕ
  uid : ℕ
  unsent : Bool
  read : Bool
  received : ℕ
  deriving DecidableEq

/-- `given` is a history variable: the folders and the uids of all the rows inserted so far, in
their order. No function reads it. -/
structure Index where
  uidnext : ℕ → Option ℕ
  messages : List Message
  given : List (ℕ × ℕ)

def start : Index := ⟨fun _ => none, [], []⟩

/-- What the store reports of a message of a folder. -/
structure Row where
  messageId : ℕ
  messageFlags : Option UInt32
  lastModificationTime : Option ℕ
  messageDeliveryTime : Option ℕ
  midString : Option String
  deriving DecidableEq

/-- The calls that can fail, each with the message it is about. `export` stands for everything
that `mail_engine_insert_message` does before its `INSERT`, `open` for all that
`mail_engine_sync_contents` does before its loop, except the step that reads `uidnext`, and
`list` for the calls that find the rows to be deleted after the loop. -/
inductive Call
  | open
  | readUidnext
  | next (messageId : ℕ)
  | find (messageId : ℕ)
  | export (messageId : ℕ)
  | insert (messageId : ℕ)
  | update (messageId : ℕ)
  | delete (messageId : ℕ)
  | nextIndexed (messageId : ℕ)
  | findStored (messageId : ℕ)
  | list
  | remove (messageId : ℕ)
  | writeBack
  | increment
  deriving DecidableEq

/-- How the calls of a run end: whether each one succeeds, and the `mid_string` that is made for
a message that comes without one. -/
structure Answers where
  ok : Call → Bool
  made : ℕ → String

/-- `MESSAGE_FLAG_UNSENT` -/
def isUnsent (flags : UInt32) : Bool := flags &&& 0x8 != 0

/-- `MESSAGE_FLAG_READ` -/
def isRead (flags : UInt32) : Bool := flags &&& 0x1 != 0

/-- `uint32_t` addition of one. -/
def next32 (n : ℕ) : ℕ := (n + 1) % 2 ^ 32

/-- A row of the `messages` table that a run builds in memory. -/
structure Stored where
  messageId : ℕ
  midString : Option String
  modTime : ℕ
  messageFlags : UInt32
  received : ℕ
  deriving DecidableEq

def Row.stored (r : Row) : Option Stored :=
  r.messageFlags.map fun flags =>
    let modTime := r.lastModificationTime.getD 0
    ⟨r.messageId, r.midString, modTime, flags, r.messageDeliveryTime.getD modTime⟩

/-- The table in memory, in the order of its primary key. -/
def table (rows : List Row) : List Stored :=
  (rows.filterMap Row.stored).mergeSort fun a b => a.messageId ≤ b.messageId

namespace Index

def message? (s : Index) (messageId : ℕ) : Option Message :=
  s.messages.find? fun m => m.messageId = messageId

/-- `INSERT INTO messages`, which the primary key or the unique `mid_string` may refuse. -/
def insert (s : Index) (m : Message) : Index :=
  if s.messages.all fun m' => m'.messageId ≠ m.messageId ∧ m'.midString ≠ m.midString then
    { s with messages := s.messages ++ [m], given := s.given ++ [(m.folderId, m.uid)] }
  else s

def delete (s : Index) (messageId : ℕ) : Index :=
  { s with messages := s.messages.filter fun m => m.messageId ≠ messageId }

def updateFlags (s : Index) (messageId : ℕ) (flags : UInt32) : Index :=
  { s with messages := s.messages.map fun m =>
      if m.messageId = messageId then { m with unsent := isUnsent flags, read := isRead flags }
      else m }

def setUidnext (s : Index) (folderId uidnext : ℕ) : Index :=
  { s with uidnext := Function.update s.uidnext folderId (some uidnext) }

/-- `mail_engine_insert_message`: the uid counter of the caller, and the index. -/
def insertMessage (a : Answers) (folderId : ℕ) (r : Stored) (midString : Option String)
    (p : ℕ × Index) : ℕ × Index :=
  if a.ok (.export r.messageId) then
    (next32 p.1, if a.ok (.insert r.messageId) then p.2.insert
        { messageId := r.messageId, folderId := folderId,
          midString := midString.getD (a.made r.messageId), modTime := r.modTime,
          uid := next32 p.1, unsent := isUnsent r.messageFlags, read := isRead r.messageFlags,
          received := r.received }
      else p.2)
  else p

/-- `mail_engine_sync_message` for the row `m` of the index. -/
def syncMessage (a : Answers) (folderId : ℕ) (m : Message) (r : Stored) (p : ℕ × Index) :
    ℕ × Index :=
  if r.midString.isSome ∨ r.modTime ≤ m.modTime then
    if m.unsent ≠ isUnsent r.messageFlags ∨ m.read ≠ isRead r.messageFlags then
      if a.ok (.update r.messageId) then (p.1, p.2.updateFlags r.messageId r.messageFlags) else p
    else p
  else if a.ok (.delete r.messageId) then
    insertMessage a folderId r none (p.1, p.2.delete r.messageId)
  else p

/-- The row of the index that the loop finds for a message. -/
def found (a : Answers) (s : Index) (messageId : ℕ) : Option Message :=
  if a.ok (.find messageId) then s.message? messageId else none

/-- A turn of the loop: the counter is advanced here and once more by the insertion. -/
def syncRow (a : Answers) (folderId : ℕ) (p : ℕ × Index) (r : Stored) : ℕ × Index :=
  match found a p.2 r.messageId with
  | none => insertMessage a folderId r r.midString (next32 p.1, p.2)
  | some m => syncMessage a folderId m r p

/-- The loop over the table in memory, which a failed step of the cursor ends. -/
def syncRows (a : Answers) (folderId : ℕ) (p : ℕ × Index) (rows : List Stored) : ℕ × Index :=
  (rows.takeWhile fun r => a.ok (.next r.messageId)).foldl (syncRow a folderId) p

/-- The messages of the folder that the run does not find in the table in memory. -/
def gone (a : Answers) (folderId : ℕ) (rows : List Stored) (s : Index) : List ℕ :=
  ((s.messages.filter fun m => m.folderId = folderId).map (·.messageId)).takeWhile
    (fun id => a.ok (.nextIndexed id)) |>.filter fun id =>
      !(a.ok (.findStored id) && rows.any fun r => r.messageId = id)

/-- The deletion of the messages listed, up to the first one that fails. -/
def removeAll (a : Answers) (s : Index) : List ℕ → Bool × Index
  | [] => (true, s)
  | id :: rest => if a.ok (.remove id) then removeAll a (s.delete id) rest else (false, s)

/-- What follows the loop, which has left the counter at `uidnext`. -/
def finish (a : Answers) (folderId uidnext1 : ℕ) (rows : List Stored) (p : ℕ × Index) :
    Bool × Index :=
  if a.ok .list then
    if (removeAll a p.2 (gone a folderId rows p.2)).1 then
      if p.1 ≠ uidnext1 then
        if a.ok .writeBack then
          (true, (removeAll a p.2 (gone a folderId rows p.2)).2.setUidnext folderId p.1)
        else (false, (removeAll a p.2 (gone a folderId rows p.2)).2)
      else (true, (removeAll a p.2 (gone a folderId rows p.2)).2)
    else (false, (removeAll a p.2 (gone a folderId rows p.2)).2)
  else (false, p.2)

end Index

/-- A run of `mail_engine_sync_contents`: the folder, what the store holds of it, and how the
calls end. -/
structure Sync where
  folderId : ℕ
  rows : List Row
  answers : Answers

namespace Index

/-- `mail_engine_sync_contents` -/
def syncContents (s : Index) (q : Sync) : Bool × Index :=
  if q.answers.ok .open then
    match if q.answers.ok .readUidnext then s.uidnext q.folderId else none with
    | none => (true, s)
    | some uidnext1 =>
      if ((table q.rows).map (·.messageId)).Nodup then
        finish q.answers q.folderId (uidnext1 % 2 ^ 32) (table q.rows)
          (syncRows q.answers q.folderId (uidnext1 % 2 ^ 32, s) (table q.rows))
      else (false, s)
  else (false, s)

/-- The runs of `mail_engine_sync_contents` inside a `mail_engine_sync_mailbox`, up to the first
one that fails. -/
def syncAll (s : Index) : List Sync → Bool × Index
  | [] => (true, s)
  | q :: rest => if (s.syncContents q).1 then (s.syncContents q).2.syncAll rest else s.syncContents q

/-- The rows that `mail_engine_sync_mailbox` writes inside its transaction: a failure, of a run
or of anything else before the commit, rolls all of them back. -/
def syncMailbox (s : Index) (runs : List Sync) (completes : Bool) : Index :=
  if (s.syncAll runs).1 && completes then (s.syncAll runs).2 else s

/-- `INSERT INTO folders`, where `uidnext` is 0 by default. -/
def addFolder (s : Index) (folderId : ℕ) : Index :=
  if (s.uidnext folderId).isSome then s else s.setUidnext folderId 0

end Index

/-- The properties of a message that a notification reads from the store, and the `mid_string`
that the table `mapping` has for it. -/
structure Props where
  messageFlags : Option UInt32
  lastModificationTime : Option ℕ
  messageDeliveryTime : Option ℕ
  midString : Option String
  mapping : Option String
  deriving DecidableEq

namespace Props

def modTime (v : Props) : ℕ := v.lastModificationTime.getD 0

def flags (v : Props) : UInt32 := v.messageFlags.getD 0

def stored (v : Props) (messageId : ℕ) : Stored :=
  ⟨messageId, v.midString.or v.mapping, v.modTime, v.flags, v.messageDeliveryTime.getD v.modTime⟩

end Props

/-- What a notification about a message meets: the properties, unless reading them fails, and how
the calls on the tables end. -/
structure Seen where
  props : Option Props
  answers : Answers

namespace Index

/-- The `UPDATE` of `uidnext` and the insertion, for a folder that has a row. -/
def addNumbered (s : Index) (folderId uidnext : ℕ) (r : Stored) (a : Answers) : Index :=
  (insertMessage a folderId r r.midString
    (uidnext % 2 ^ 32, s.setUidnext folderId (uidnext + 1))).2

/-- `mail_engine_add_notification_message` -/
def addNotificationMessage (s : Index) (folderId messageId : ℕ) (v : Seen) : Index :=
  match v.props with
  | none => s
  | some props =>
    match if v.answers.ok .readUidnext then s.uidnext folderId else none with
    | none => s
    | some uidnext =>
      if v.answers.ok .increment then
        s.addNumbered folderId uidnext (props.stored messageId) v.answers
      else s

/-- `mail_engine_delete_notification_message` -/
def deleteNotificationMessage (s : Index) (folderId messageId : ℕ) (a : Answers) : Index :=
  match found a s messageId with
  | none => s
  | some m => if m.folderId = folderId ∧ a.ok (.delete messageId) then s.delete messageId else s

/-- The flags of a message that was not modified. -/
def notifyFlags (s : Index) (messageId : ℕ) (props : Props) (a : Answers) : Index :=
  if a.ok (.update messageId) then s.updateFlags messageId props.flags else s

/-- `mail_engine_modify_notification_message`, which reads the properties once more when it
inserts the message anew. -/
def modifyNotificationMessage (s : Index) (folderId messageId : ℕ) (v again : Seen) : Index :=
  match v.props with
  | none => s
  | some props =>
    if props.midString.isSome then s.notifyFlags messageId props v.answers
    else
      match found v.answers s messageId with
      | none => s
      | some m =>
        if props.modTime = m.modTime then s.notifyFlags messageId props v.answers
        else if v.answers.ok (.delete messageId) then
          (s.delete messageId).addNotificationMessage folderId messageId again
        else s

end Index

/-- What happens to the index of a mailbox. `mail_engine_notification_proc` takes new mail, a
created message and a copied one alike. -/
inductive Op
  | addFolder (folderId : ℕ)
  | syncMailbox (runs : List Sync) (completes : Bool)
  | folderCopied (run : Sync)
  | created (folderId messageId : ℕ) (v : Seen)
  | moved (oldFolderId oldMessageId folderId messageId : ℕ) (a : Answers) (v : Seen)
  | modified (folderId messageId : ℕ) (v again : Seen)
  | deleted (folderId messageId : ℕ) (a : Answers)

def Index.step (s : Index) : Op → Index
  | .addFolder folderId => s.addFolder folderId
  | .syncMailbox runs completes => s.syncMailbox runs completes
  | .folderCopied run => (s.syncContents run).2
  | .created folderId messageId v => s.addNotificationMessage folderId messageId v
  | .moved oldFolderId oldMessageId folderId messageId a v =>
    (s.deleteNotificationMessage oldFolderId oldMessageId a).addNotificationMessage folderId
      messageId v
  | .modified folderId messageId v again =>
    s.modifyNotificationMessage folderId messageId v again
  | .deleted folderId messageId a => s.deleteNotificationMessage folderId messageId a

end SteepSystem.MailEngine
