import SteepSystem.Ics.HierarchyModel

/-!
The content half of `exmdb_server/ics.c`, with the parts of `icsdownctx_object.c` that call it
and write the state back. Statements on tables and grants of memory succeed as before.
-/

namespace SteepSystem.Ics.ContentModel

open SteepSystem.RopUtil SteepSystem.Idsets.Model SteepSystem.Ics.Sets
open SteepSystem.Ics.HierarchyModel (sameUser)

def PROP_TAG_MESSAGEDELIVERYTIME : ℕ := 0x0E060040
def PROP_TAG_LASTMODIFICATIONTIME : ℕ := 0x30080040

def SYNC_FLAG_READSTATE : ℕ := 0x8
def SYNC_FLAG_FAI : ℕ := 0x10
def SYNC_FLAG_NORMAL : ℕ := 0x20
def SYNC_EXTRA_FLAG_ORDERBYDELIVERYTIME : ℕ := 0x8

def CHANGE_NUMBER_BEGIN : ℕ := 0x800000000000

structure Message where
  messageId : ℕ
  parentFid : Option ℕ
  isDeleted : Bool
  isAssociated : Bool
  changeNumber : ℕ
  messageSize : ℕ
  readState : ℕ
  readCn : Option ℕ

/-- A mailbox or public store. Message identifiers are primary keys; they and all change numbers
count from 1 in 48 bits. -/
structure Store where
  isPrivate : Bool
  messages : List Message
  readCns : List (ℕ × String × ℕ)
  readStates : List (ℕ × String)
  getProperty : ℕ → ℕ → Option ℤ
  nodup_messageId : (messages.map Message.messageId).Nodup
  messageId_mem : ∀ m ∈ messages, 1 ≤ m.messageId ∧ m.messageId < 2 ^ 48
  changeNumber_mem : ∀ m ∈ messages, 1 ≤ m.changeNumber ∧ m.changeNumber < 2 ^ 48
  readCn_mem : ∀ m ∈ messages, ∀ cn ∈ m.readCn, 1 ≤ cn ∧ cn < 2 ^ 48
  readCns_mem : ∀ row ∈ readCns, 1 ≤ row.2.2 ∧ row.2.2 < 2 ^ 48

/-- The arguments of `exmdb_server_get_content_sync`; the restriction is what evaluating it says
of a message. -/
structure ContentRequest where
  folderId : ℕ
  username : String
  pgiven : Idset
  pseen : Option Idset
  pseenFai : Option Idset
  pread : Option Idset
  prestriction : Option (ℕ → Bool)
  bOrdered : Bool

structure Counts where
  faiCount : ℕ
  faiTotal : ℕ
  normalCount : ℕ
  normalTotal : ℕ

/-- The tables in memory, with `*plast_cn`, `*plast_readcn` and the counts. -/
structure Tables where
  existence : List ℕ
  changes : List (ℕ × ℤ × ℤ)
  reads : List (ℕ × ℕ)
  lastCn : ℕ
  lastReadcn : ℕ
  counts : Counts

def Tables.init : Tables := ⟨[], [], [], 0, 0, ⟨0, 0, 0, 0⟩⟩

variable (store : Store) (q : ContentRequest)

/-- The rows of the folder: deleted messages of a public store are left out. -/
def Store.messagesIn (fidVal : ℕ) : List Message :=
  store.messages.filter fun m => m.parentFid = some fidVal ∧ (store.isPrivate ∨ ¬ m.isDeleted)

/-- Whether the loop goes on with a row. -/
def isWanted (m : Message) : Bool :=
  (match q.pseen, q.pseenFai with
    | none, none => false
    | some _, none => ! m.isAssociated
    | none, some _ => m.isAssociated
    | some _, some _ => true) &&
  match q.prestriction with
  | none => true
  | some prestriction => prestriction m.messageId

/-- A public store keeps read change numbers by user, and asks for them only with `pread`. -/
def readCnOf (m : Message) : ℕ :=
  if store.isPrivate then m.readCn.getD 0
  else if q.pread.isNone then 0
  else
    match store.readCns.find? fun row => row.1 = m.messageId ∧ sameUser row.2.1 q.username with
    | some row => row.2.2
    | none => 0

def readStateOf (m : Message) : ℕ :=
  if store.isPrivate then m.readState
  else if store.readStates.any fun row => row.1 = m.messageId ∧ sameUser row.2 q.username then 1
  else 0

/-- Both conditions of the loop under which a message is not reported as changed. -/
def isSeen (cache : IdsetCache) (m : Message) : Bool :=
  icsHintIdsetCache cache m.messageId &&
    match if m.isAssociated then q.pseenFai else q.pseen with
    | some pset => idsetHint pset (ropUtilMakeEidEx 1 m.changeNumber)
    | none => false

/-- The row that an ordered synchronization sorts by; the other one keeps no times. -/
def changeRow (m : Message) : ℕ × ℤ × ℤ :=
  if q.bOrdered then
    (m.messageId, (store.getProperty PROP_TAG_MESSAGEDELIVERYTIME m.messageId).getD 0,
      (store.getProperty PROP_TAG_LASTMODIFICATIONTIME m.messageId).getD 0)
  else (m.messageId, 0, 0)

def countRow (c : Counts) (m : Message) : Counts :=
  if m.isAssociated then
    { c with
      faiCount := (c.faiCount + 1) % 2 ^ 32
      faiTotal := (c.faiTotal + m.messageSize) % 2 ^ 64 }
  else
    { c with
      normalCount := (c.normalCount + 1) % 2 ^ 32
      normalTotal := (c.normalTotal + m.messageSize) % 2 ^ 64 }

/-- One row of the loop in `exmdb_server_get_content_sync`. -/
def loadRow (cache : IdsetCache) (t : Tables) (m : Message) : Option Tables :=
  if ¬ isWanted q m then some t
  else do
    let existence ← insertKey t.existence m.messageId
    let readCn := readCnOf store q m
    let t := { t with
      existence := existence
      lastCn := if m.changeNumber > t.lastCn then m.changeNumber else t.lastCn
      lastReadcn := if readCn > t.lastReadcn then readCn else t.lastReadcn }
    if isSeen q cache m then
      if m.isAssociated then some t
      else
        match q.pread with
        | none => some t
        | some pread =>
          if readCn = 0 ∨ idsetHint pread (ropUtilMakeEidEx 1 readCn) then some t
          else if m.messageId ∈ t.reads.map Prod.fst then none
          else some { t with reads := t.reads ++ [(m.messageId, readStateOf store q m)] }
    else if m.messageId ∈ t.changes.map Prod.fst then none
    else some { t with
      changes := t.changes ++ [changeRow store q m]
      counts := countRow t.counts m }

/-- The order in which the rows of `changes` are read: by times, or by the primary key. -/
def sortChanges (changes : List (ℕ × ℤ × ℤ)) : List (ℕ × ℤ × ℤ) :=
  if q.bOrdered then
    changes.mergeSort fun a b => a.2.1 > b.2.1 ∨ (a.2.1 = b.2.1 ∧ a.2.2 ≥ b.2.2)
  else changes.mergeSort fun a b => a.1 ≤ b.1

def icsEnumContentIdset (existence : List ℕ) (acc : List ℕ × List ℕ) (messageId : ℕ) :
    List ℕ × List ℕ :=
  if ropUtilGetGcValue messageId ∈ existence then acc
  else if ∃ m ∈ store.messages, m.messageId = ropUtilGetGcValue messageId then
    (acc.1, acc.2 ++ [messageId])
  else (acc.1 ++ [messageId], acc.2)

structure ContentSync where
  counts : Counts
  updatedMids : List ℕ
  chgMids : List ℕ
  lastCn : ℕ
  givenMids : List ℕ
  deletedMids : List ℕ
  nolongerMids : List ℕ
  readMids : List ℕ
  unreadMids : List ℕ
  lastReadcn : ℕ

/-- What is read from the tables once they are built. -/
def contentSyncOf (cache : IdsetCache) (t : Tables) : ContentSync :=
  let mids := (sortChanges q t.changes).map Prod.fst
  let gone := (idsetEnumRepl q.pgiven 1).foldl (icsEnumContentIdset store t.existence) ([], [])
  let reads := t.reads.mergeSort fun a b => a.1 ≤ b.1
  { counts := t.counts
    updatedMids := (mids.filter (icsHintIdsetCache cache)).map (ropUtilMakeEidEx 1)
    chgMids := mids.map (ropUtilMakeEidEx 1)
    lastCn := if t.lastCn ≠ 0 then ropUtilMakeEidEx 1 t.lastCn else 0
    givenMids := (t.existence.mergeSort (· ≥ ·)).map (ropUtilMakeEidEx 1)
    deletedMids := gone.1
    nolongerMids := gone.2
    readMids := (reads.filter (·.2 ≠ 0)).map fun row => ropUtilMakeEidEx 1 row.1
    unreadMids := (reads.filter (·.2 = 0)).map fun row => ropUtilMakeEidEx 1 row.1
    lastReadcn := if t.lastReadcn ≠ 0 then ropUtilMakeEidEx 1 t.lastReadcn else 0 }

def exmdbServerGetContentSync : Option ContentSync := do
  let cache ← icsInitIdsetCache q.pgiven
  let t ← (store.messagesIn (ropUtilGetGcValue q.folderId)).foldlM (loadRow store q cache) .init
  some (contentSyncOf store q cache t)

/-- What the flags of a synchronization context make of its state. -/
def contentRequest (folderId : ℕ) (username : String) (syncFlags extraFlags : ℕ)
    (prestriction : Option (ℕ → Bool)) (pstate : IcsState) : ContentRequest where
  folderId := folderId
  username := username
  pgiven := pstate.pgiven
  pseen := if syncFlags &&& SYNC_FLAG_NORMAL ≠ 0 then some pstate.pseen else none
  pseenFai := if syncFlags &&& SYNC_FLAG_FAI ≠ 0 then some pstate.pseenFai else none
  pread := if syncFlags &&& SYNC_FLAG_READSTATE ≠ 0 then some pstate.pread else none
  prestriction := prestriction
  bOrdered := extraFlags &&& SYNC_EXTRA_FLAG_ORDERBYDELIVERYTIME ≠ 0

/-- The call of `icsdownctx_object_make_content`, and the state it leaves. -/
def icsdownctxObjectMakeContent (folderId : ℕ) (username : String) (syncFlags extraFlags : ℕ)
    (prestriction : Option (ℕ → Bool)) (pstate : IcsState) : Option (ContentSync × IcsState) := do
  let r ← exmdbServerGetContentSync store
    (contentRequest folderId username syncFlags extraFlags prestriction pstate)
  let pgiven ← appendGiven (idsetClear pstate.pgiven) r.givenMids
  some (r, { pstate with pgiven := pgiven })

/-- The sets that `icsdownctx_object_write_state` makes. -/
def writeSeen (flag syncFlags lastChangenum : ℕ) (pset : Idset) : Option Idset :=
  if syncFlags &&& flag ≠ 0 ∧ lastChangenum ≠ 0 then
    clearAppendRange pset (ropUtilGetGcValue lastChangenum)
  else some (idsetClear pset)

def writeRead (syncFlags lastChangenum lastReadcn : ℕ) (pset : Idset) : Option Idset :=
  if syncFlags &&& SYNC_FLAG_READSTATE ≠ 0 then
    if lastReadcn = 0 then
      if lastChangenum ≠ 0 then clearAppendRange pset (CHANGE_NUMBER_BEGIN - 1)
      else some (idsetClear pset)
    else clearAppendRange pset (ropUtilGetGcValue lastReadcn)
  else some (idsetClear pset)

def icsdownctxObjectWriteState (syncFlags : ℕ) (r : ContentSync) (pstate : IcsState) :
    Option IcsState := do
  let pseen ← writeSeen SYNC_FLAG_NORMAL syncFlags r.lastCn pstate.pseen
  let pseenFai ← writeSeen SYNC_FLAG_FAI syncFlags r.lastCn pstate.pseenFai
  let pread ← writeRead syncFlags r.lastCn r.lastReadcn pstate.pread
  some { pstate with pseen := pseen, pseenFai := pseenFai, pread := pread }

end SteepSystem.Ics.ContentModel
