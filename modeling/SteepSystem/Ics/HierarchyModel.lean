import SteepSystem.Ics.Sets

/-!
The hierarchy half of `exmdb_server/ics.c`, and the part of `icsdownctx_object_make_hierarchy`
that sets the state returned to the client.

Tables are lists of rows in the order a query yields them; a statement on them and a grant of
memory always succeed, but an `INSERT` fails on a key that is there.
-/

namespace SteepSystem.Ics.HierarchyModel

open SteepSystem.RopUtil SteepSystem.Idsets.Model SteepSystem.Ics.Sets

def PROP_TAG_HASRULES : ℕ := 0x663A000B
def PROP_TAG_CHANGENUMBER : ℕ := 0x67A40014
def PROP_TAG_LOCALCOMMITTIME : ℕ := 0x67090040
def PROP_TAG_DELETEDCOUNTTOTAL : ℕ := 0x670B0003
def PROP_TAG_NORMALMESSAGESIZE : ℕ := 0x66B30003
def PROP_TAG_LOCALCOMMITTIMEMAX : ℕ := 0x670A0040
def PROP_TAG_HIERARCHYCHANGENUMBER : ℕ := 0x663E0003
def PROP_TAG_PARENTFOLDERID : ℕ := 0x67490014

def PERMISSION_READANY : ℕ := 0x00000001
def PERMISSION_FOLDEROWNER : ℕ := 0x00000100
def PERMISSION_FOLDERVISIBLE : ℕ := 0x00000400

structure Folder where
  folderId : ℕ
  parentId : Option ℕ
  changeNumber : ℕ
  isDeleted : Bool

structure Permission where
  folderId : ℕ
  username : String
  permission : ℕ

/-- A mailbox or public store. Folders have one parent each and no cycles; their identifiers are
primary keys, and identifiers and change numbers count from 1 in 48 bits. -/
structure Store (α : Type) where
  isPrivate : Bool
  folders : List Folder
  permissions : List Permission
  anonymousPermission : Option ℕ
  defaultPermission : Option ℕ
  checkMlistInclude : String → String → Bool
  getProptags : ℕ → List ℕ
  getProperties : ℕ → List ℕ → α
  nodup_folderId : (folders.map Folder.folderId).Nodup
  acyclic : ∃ rank : ℕ → ℕ, ∀ f ∈ folders, ∀ p ∈ f.parentId, rank p < rank f.folderId
  folderId_mem : ∀ f ∈ folders, 1 ≤ f.folderId ∧ f.folderId < 2 ^ 48
  changeNumber_mem : ∀ f ∈ folders, 1 ≤ f.changeNumber ∧ f.changeNumber < 2 ^ 48

variable {α : Type}

/-- `username=?` on a column that collates without case. -/
def sameUser (a b : String) : Bool := a.toLower = b.toLower

def Store.permissionOf (store : Store α) (folderId : ℕ) (p : String → Bool) : Option ℕ :=
  (store.permissions.find? fun row => row.folderId = folderId ∧ p row.username).map
    fun row => row.permission % 2 ^ 32

def commonUtilCheckFolderPermission (store : Store α) (folderId : ℕ) (username : String) : ℕ :=
  match store.permissionOf folderId (sameUser username) with
  | some permission => permission
  | none =>
    if username = "" then store.anonymousPermission.getD 0 % 2 ^ 32
    else
      match store.permissionOf folderId (store.checkMlistInclude · username) with
      | some permission => permission
      | none =>
        match store.permissionOf folderId (sameUser "default") with
        | some permission => permission
        | none => store.defaultPermission.getD 0 % 2 ^ 32

/-- The rows for a parent: deleted folders of a public store are left out. -/
def Store.foldersUnder (store : Store α) (parentId : ℕ) : List Folder :=
  store.folders.filter fun f => f.parentId = some parentId ∧ (store.isPrivate ∨ ¬ f.isDeleted)

/-- Whether the loop goes on with a row; without a user name it always does. -/
def checkVisible (store : Store α) (username : Option String) (fidVal : ℕ) : Bool :=
  match username with
  | none => true
  | some username =>
    let permission := commonUtilCheckFolderPermission store fidVal username
    ! (permission &&& PERMISSION_READANY = 0 ∧ permission &&& PERMISSION_FOLDERVISIBLE = 0 ∧
      permission &&& PERMISSION_FOLDEROWNER = 0)

/-- The tables in memory and `*plast_cn`. -/
structure Tables where
  existence : List ℕ
  changes : List ℕ
  lastCn : ℕ

/-- What the client knows of a folder: the folder itself and this change of it. -/
def isKnown (pgiven pseen : Idset) (f : Folder) : Bool :=
  idsetHint pgiven (ropUtilMakeEidEx 1 f.folderId) &&
    idsetHint pseen (ropUtilMakeEidEx 1 f.changeNumber)

/-- One row of the loop in `ics_load_folder_changes`, with `tmp_list`. -/
def icsLoadRow (store : Store α) (username : Option String) (pgiven pseen : Idset)
    (acc : Tables × List ℕ) (f : Folder) : Option (Tables × List ℕ) :=
  if ¬ checkVisible store username f.folderId then some acc
  else do
    let tmpList := acc.2 ++ [f.folderId]
    let existence ← insertKey acc.1.existence f.folderId
    let lastCn := if f.changeNumber > acc.1.lastCn then f.changeNumber else acc.1.lastCn
    if isKnown pgiven pseen f then some (⟨existence, acc.1.changes, lastCn⟩, tmpList)
    else
      let changes ← insertKey acc.1.changes f.folderId
      some (⟨existence, changes, lastCn⟩, tmpList)

def icsLoadFolderChanges (store : Store α) (username : Option String) (pgiven pseen : Idset) :
    ℕ → ℕ → Tables → Option Tables
  | 0, _, _ => none
  | fuel + 1, folderId, t => do
    let (t, tmpList) ←
      (store.foldersUnder folderId).foldlM (icsLoadRow store username pgiven pseen) (t, [])
    tmpList.foldlM (fun t fidVal => icsLoadFolderChanges store username pgiven pseen fuel fidVal t) t

/-- The properties fetched for a changed folder. -/
def fetchChange (store : Store α) (fidVal : ℕ) : α :=
  store.getProperties fidVal
    ((store.getProptags fidVal).filter (fun proptag => ¬ (
        PROP_TAG_HASRULES = proptag ∨ PROP_TAG_CHANGENUMBER = proptag ∨
        PROP_TAG_LOCALCOMMITTIME = proptag ∨ PROP_TAG_DELETEDCOUNTTOTAL = proptag ∨
        PROP_TAG_NORMALMESSAGESIZE = proptag ∨ PROP_TAG_LOCALCOMMITTIMEMAX = proptag ∨
        PROP_TAG_HIERARCHYCHANGENUMBER = proptag)) ++ [PROP_TAG_PARENTFOLDERID])

def fidValToEid (fidVal : ℕ) : ℕ :=
  if fidVal &&& 0xFF00000000000000 = 0 then ropUtilMakeEidEx 1 fidVal
  else ropUtilMakeEidEx (fidVal >>> 48) (fidVal &&& 0x00FFFFFFFFFFFFFF)

def icsEnumHierarchyReplist (replids : List ℕ) (replid : ℕ) : List ℕ :=
  if replids.length < 1024 then replids ++ [replid] else replids

/-- The key of `existence` that an identifier is looked up by. -/
def eidToFidVal (folderId : ℕ) : ℕ :=
  if ropUtilGetReplid folderId = 1 then ropUtilGetGcValue folderId
  else ropUtilGetGcValue folderId ||| ropUtilGetReplid folderId <<< 48

def icsEnumHierarchyIdset (existence : List ℕ) (pdeletedEids : List ℕ) (folderId : ℕ) : List ℕ :=
  if eidToFidVal folderId ∈ existence then pdeletedEids else pdeletedEids ++ [folderId]

structure HierarchySync (α : Type) where
  fldchgs : List α
  lastCn : ℕ
  givenFids : List ℕ
  deletedFids : List ℕ

def exmdbServerGetHierarchySync (store : Store α) (folderId : ℕ) (username : Option String)
    (pgiven pseen : Idset) : Option (HierarchySync α) := do
  let t ← icsLoadFolderChanges store username pgiven pseen (store.folders.length + 1)
    (ropUtilGetGcValue folderId) ⟨[], [], 0⟩
  let replids := (idsetEnumReplist pgiven).foldl icsEnumHierarchyReplist []
  some {
    fldchgs := t.changes.map (fetchChange store)
    lastCn := if t.lastCn ≠ 0 then ropUtilMakeEidEx 1 t.lastCn else 0
    givenFids := (t.existence.mergeSort (· ≥ ·)).map fidValToEid
    deletedFids := replids.foldl
      (fun eids replid => (idsetEnumRepl pgiven replid).foldl (icsEnumHierarchyIdset t.existence) eids)
      [] }

/-- The call of `icsdownctx_object_make_hierarchy`, and the state it leaves. -/
def icsdownctxObjectMakeHierarchy (store : Store α) (folderId : ℕ) (username : Option String)
    (pstate : IcsState) : Option (HierarchySync α × IcsState) := do
  let r ← exmdbServerGetHierarchySync store folderId username pstate.pgiven pstate.pseen
  let pgiven ← appendGiven (idsetClear pstate.pgiven) r.givenFids
  let pseen ←
    if r.lastCn ≠ 0 then clearAppendRange pstate.pseen (ropUtilGetGcValue r.lastCn)
    else some pstate.pseen
  some (r, { pstate with pgiven := pgiven, pseen := pseen })

end SteepSystem.Ics.HierarchyModel
