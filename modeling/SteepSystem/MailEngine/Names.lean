import SteepSystem.Lib.CStrings

/-!
The encoded names of the folders in the index of `midb`: how a run of
`mail_engine_sync_mailbox` computes one from the folders of the store, and how the notifications
about folders compute it from the names in the index.
-/

namespace SteepSystem.MailEngine.Names

open SteepSystem.Lib.CStrings

/-- A C string, without its NUL. -/
abbrev Name := List UInt8

def privateFidIpmsubtree : ℕ := 0x09

def privateFidOutbox : ℕ := 0x0c

def privateFidSyncIssues : ℕ := 0x19

/-- Folders from here on are made by users. -/
def privateFidCustom : ℕ := 0x1e

/-- The names of the built-in folders. -/
def fixedName (folderId : ℕ) : Option Name :=
  if folderId = 0x0d then some (bytes "inbox")
  else if folderId = 0x0e then some (bytes "draft")
  else if folderId = 0x0a then some (bytes "sent")
  else if folderId = 0x0b then some (bytes "trash")
  else if folderId = 0x17 then some (bytes "junk")
  else none

/-! ### Hexadecimal form -/

/-- `codes` of `encode_hex_binary` -/
def code (n : ℕ) : UInt8 := if n < 10 then 48 + UInt8.ofNat n else 87 + UInt8.ofNat n

/-- `encode_hex_binary`, for a name that fits. -/
def encodeHex (s : Name) : Name := s.flatMap fun c => [code (c.toNat / 16), code (c.toNat % 16)]

/-- The value of a digit to base sixteen, as `strtol` takes it. -/
def digit (c : UInt8) : Option ℕ :=
  if isdigit c then some (c.toNat - 48)
  else if 97 ≤ c && c ≤ 102 then some (c.toNat - 87)
  else if 65 ≤ c && c ≤ 70 then some (c.toNat - 55)
  else none

/-- `strtol` to base sixteen of a string without blanks and signs: the digits it begins with. -/
def strtol16 (v : ℕ) : List UInt8 → ℕ
  | [] => v
  | c :: rest =>
    match digit c with
    | some d => strtol16 (16 * v + d) rest
    | none => v

/-- The bytes that `decode_hex_binary` writes. -/
def decodeHex : Name → List UInt8
  | [] => []
  | [a] => [UInt8.ofNat (strtol16 0 [a])]
  | a :: b :: rest => UInt8.ofNat (strtol16 0 [a, b]) :: decodeHex rest

/-! ### A run over the whole mailbox -/

/-- What the store has of a folder. -/
structure StoreFolder where
  parentId : ℕ
  displayName : Name
  containerClass : Option Name
  hidden : Bool

abbrev Store := ℕ → Option StoreFolder

/-- A folder for mail that is not hidden. -/
def StoreFolder.isMail (x : StoreFolder) : Bool :=
  !x.hidden && x.containerClass.any fun c => caseEq c (bytes "IPF.Note")

/-- The row of the table in memory: the parent and the name, which is fixed for the built-in
folders. -/
def memory (store : Store) (folderId : ℕ) : Option (ℕ × Name) :=
  match store folderId with
  | none => none
  | some x =>
    if x.isMail then
      match fixedName folderId with
      | some name => some (x.parentId, name)
      | none => if x.displayName.length < 256 then some (x.parentId, x.displayName) else none
    else none

/-- The loop that climbs to the IPM subtree, in at most `fuel` turns, and the names it has
collected. -/
def climb (mem : ℕ → Option (ℕ × Name)) : ℕ → ℕ → Option (List Name)
  | 0, _ => none
  | fuel + 1, folderId =>
    match mem folderId with
    | none => none
    | some (parentFid, name) =>
      if parentFid = privateFidIpmsubtree then some [name]
      else (climb mem fuel parentFid).map (· ++ [name])

/-- The loop that writes the names, with a '/' before each one unless nothing is written yet. -/
def joinFrom (written : Name) : List Name → Option Name
  | [] => some written
  | name :: rest =>
    if name.length ≥ 256 then none
    else
      let written' := if written.length ≠ 0 then written ++ [47] else written
      if written'.length + name.length ≥ 512 then none
      else joinFrom (written' ++ name) rest

/-- `mail_engine_get_encoded_name` -/
def getEncodedName (mem : ℕ → Option (ℕ × Name)) (fuel folderId : ℕ) : Option Name :=
  match fixedName folderId with
  | some name => some name
  | none => ((climb mem fuel folderId).bind (joinFrom [])).map encodeHex

/-- `mail_engine_get_top_folder_id` -/
def getTopFolderId (mem : ℕ → Option (ℕ × Name)) : ℕ → ℕ → ℕ
  | 0, _ => 0
  | fuel + 1, folderId =>
    match mem folderId with
    | none => 0
    | some (parentFid, _) =>
      if parentFid = privateFidIpmsubtree then folderId else getTopFolderId mem fuel parentFid

/-- The name that `mail_engine_sync_mailbox` has for a folder, if it keeps one for it. -/
def syncName (store : Store) (fuel folderId : ℕ) : Option Name :=
  if (memory store folderId).isNone then none
  else if getTopFolderId (memory store) fuel folderId = privateFidOutbox ∨
      getTopFolderId (memory store) fuel folderId = privateFidSyncIssues then none
  else getEncodedName (memory store) fuel folderId

/-! ### The index and the notifications -/

/-- The table `folders` of the index, by columns. -/
structure Folders where
  ids : List ℕ
  parentFid : ℕ → ℕ
  name : ℕ → Name

namespace Folders

/-- The unique column `name` has this value in another row. -/
def taken (t : Folders) (folderId : ℕ) (name : Name) : Bool :=
  t.ids.any fun k => k ≠ folderId && t.name k = name

def insert (t : Folders) (parentId folderId : ℕ) (name : Name) : Folders :=
  if folderId ∈ t.ids || t.taken folderId name then t
  else ⟨t.ids ++ [folderId], Function.update t.parentFid folderId parentId,
    Function.update t.name folderId name⟩

/-- `UPDATE folders SET name` -/
def setName (t : Folders) (folderId : ℕ) (name : Name) : Folders :=
  if t.taken folderId name then t else { t with name := Function.update t.name folderId name }

/-- `UPDATE folders SET parent_fid, name` -/
def setParent (t : Folders) (folderId parentId : ℕ) (name : Name) : Folders :=
  if t.taken folderId name then t
  else { t with
    parentFid := Function.update t.parentFid folderId parentId
    name := Function.update t.name folderId name }

/-- The name of a folder in the index, decoded as a C string. -/
def decoded (t : Folders) (folderId : ℕ) : Name := cstr (decodeHex (t.name folderId))

/-- What the `switch` of the parent leaves in `decoded_name`. -/
def parentName (t : Folders) (parentId : ℕ) : Option Name :=
  match fixedName parentId with
  | some name => some name
  | none =>
    if parentId ∈ t.ids ∧ (t.name parentId).length / 2 ≤ 512 then some (t.decoded parentId)
    else none

/-- `temp_name`, from the name of the parent and the display name. -/
def childName (t : Folders) (parentId : ℕ) (displayName : Name) : Option Name :=
  if parentId = privateFidIpmsubtree then
    if displayName.length ≥ 256 then none else some displayName
  else
    match t.parentName parentId with
    | none => none
    | some decodedName =>
      if displayName.length ≥ 256 then none
      else if displayName.length + decodedName.length ≥ 511 then none
      else some (decodedName ++ 47 :: displayName)

/-- `mail_engine_add_notification_folder`, for the properties that the store has when the folder
is queried for the last time. -/
def addNotificationFolder (t : Folders) (store : Store) (parentId folderId : ℕ) : Folders :=
  match store folderId with
  | none => t
  | some x =>
    if x.isMail then
      match t.childName parentId x.displayName with
      | none => t
      | some tempName => t.insert parentId folderId (encodeHex tempName)
    else t

/-- `strrchr` of a '/': what is in front of the last one, and the string from it on. -/
def strrchr (s : Name) : Option (Name × Name) :=
  if 47 ∈ s then
    some ((s.reverse.dropWhile (· != 47)).tail.reverse,
      47 :: (s.reverse.takeWhile (· != 47)).reverse)
  else none

/-- A turn of the loop over the folders below one, with `update` for the recursive call. -/
def renameChild (update : Folders → ℕ → Name → Folders) (parentName : Name) (t : Folders)
    (folderId : ℕ) : Folders :=
  match strrchr (t.decoded folderId) with
  | none => t
  | some (_, token) =>
    if token.length + parentName.length ≥ 512 then t
    else update (t.setName folderId (encodeHex (parentName ++ token))) folderId
      (parentName ++ token)

/-- `mail_engine_update_subfolders_name`. Each level of the recursion adds at least the '/' to a
name that stays below 512 bytes, which bounds its depth. -/
def updateSubfoldersName : ℕ → Folders → ℕ → Name → Folders
  | 0, t, _, _ => t
  | fuel + 1, t, parentId, parentName =>
    (t.ids.filter fun k => t.parentFid k = parentId).foldl
      (renameChild (updateSubfoldersName fuel) parentName) t

/-- `mail_engine_move_notification_folder`. `stack` is the memory from `temp_name` on as the
function finds it: a name for the top level is copied there without its NUL. -/
def moveNotificationFolder (t : Folders) (store : Store) (stack : List UInt8)
    (parentId folderId : ℕ) : Folders :=
  if folderId ∈ t.ids then
    match store folderId with
    | none => t
    | some x =>
      match t.childName parentId x.displayName with
      | none => t
      | some tempName =>
        updateSubfoldersName 512 (t.setParent folderId parentId (encodeHex tempName)) folderId
          (if parentId = privateFidIpmsubtree then cstr (tempName ++ stack.drop tempName.length)
          else tempName)
  else t.addNotificationFolder store parentId folderId

/-- The new name written over the old one in `decoded_name`, of which `stack` was the memory
before: for a folder of the top level the name is copied without its NUL. -/
def renamed (decodedName displayName : Name) (stack : List UInt8) : Option (Name × Name) :=
  match strrchr decodedName with
  | none =>
    let buffer := decodedName ++ 0 :: stack.drop (decodedName.length + 1)
    some (displayName, cstr (displayName ++ buffer.drop displayName.length))
  | some (parent, _) =>
    if parent.length + 1 + displayName.length ≥ 512 then none
    else some (parent ++ 47 :: displayName, parent ++ 47 :: displayName)

/-- The last part of a name in the index. -/
def lastName (decodedName : Name) : Name :=
  match strrchr decodedName with
  | none => decodedName
  | some (_, token) => token.tail

/-- `mail_engine_modify_notification_folder` -/
def modifyNotificationFolder (t : Folders) (store : Store) (stack : List UInt8)
    (folderId : ℕ) : Folders :=
  if folderId = privateFidIpmsubtree ∨ (fixedName folderId).isSome ∨ folderId ∉ t.ids ∨
      (t.name folderId).length / 2 > 512 then t
  else
    match store folderId with
    | none => t
    | some x =>
      if lastName (t.decoded folderId) = x.displayName ∨ x.displayName.length ≥ 256 then t
      else
        match renamed (t.decoded folderId) x.displayName stack with
        | none => t
        | some (name, parentName) =>
          updateSubfoldersName 512 (t.setName folderId (encodeHex name)) folderId parentName

end Folders

/-- What a client does to the folders, each with the memory that the notification meets. -/
inductive Op
  | created (folderId : ℕ) (folder : StoreFolder)
  | renamed (folderId : ℕ) (displayName : Name) (stack : List UInt8)
  | moved (folderId parentId : ℕ) (displayName : Name) (stack : List UInt8)

/-- The store and the index. -/
structure Mailbox where
  store : Store
  folders : Folders

namespace Mailbox

def change (store : Store) : Op → Store
  | .created folderId folder => Function.update store folderId (some folder)
  | .renamed folderId displayName _ =>
    Function.update store folderId ((store folderId).map fun x =>
      { x with displayName := displayName })
  | .moved folderId parentId displayName _ =>
    Function.update store folderId ((store folderId).map fun x =>
      { x with parentId := parentId, displayName := displayName })

/-- The store changes, and `mail_engine_notification_proc` is told. -/
def step (s : Mailbox) (op : Op) : Mailbox where
  store := change s.store op
  folders := match op with
    | .created folderId folder =>
      s.folders.addNotificationFolder (change s.store op) folder.parentId folderId
    | .renamed folderId _ stack =>
      s.folders.modifyNotificationFolder (change s.store op) stack folderId
    | .moved folderId parentId _ stack =>
      s.folders.moveNotificationFolder (change s.store op) stack parentId folderId

end Mailbox

end SteepSystem.MailEngine.Names
