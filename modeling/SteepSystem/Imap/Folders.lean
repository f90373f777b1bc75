import SteepSystem.Texts.Utf7

/-!
`imap_cmd_parser_imapfolder_to_sysfolder` and `imap_cmd_parser_sysfolder_to_imapfolder`
(`MRA_SYSTEM/imap/imap_parser/imap_cmd_parser.c`), with `encode_hex_binary` and `decode_hex_binary`
(`LIBRARY/common/util.c`): the names of folders for IMAP clients and in the store. Strings are lists of
bytes without the NUL; `none` where memory outside of a buffer is reached, `some none` for `FALSE`.
-/

namespace SteepSystem.Imap.Folders

open SteepSystem.Lib.CStrings SteepSystem.Lib.Outputs SteepSystem.Texts.Utf7

def inbox : List UInt8 := bytes "inbox"

/-- `g_folder_list` -/
def gFolderList : Fin 4 → List UInt8 := ![bytes "draft", bytes "sent", bytes "trash", bytes "junk"]

def xdigit (c : UInt8) : Option UInt8 :=
  if 0x30 ≤ c ∧ c ≤ 0x39 then some (c - 0x30)
  else if 0x61 ≤ c ||| 0x20 ∧ c ||| 0x20 ≤ 0x66 then some ((c ||| 0x20) - 0x61 + 10)
  else none

/-- `strtol` in base 16 of a string of two characters, as a byte. -/
def strtol16 (a b : UInt8) : UInt8 :=
  match xdigit a, xdigit b with
  | some m, some n => (m <<< 4) + n
  | some m, none => m
  | none, some n => if isspace a ∨ a = 0x2B then n else if a = 0x2D then 0 - n else 0
  | none, none => 0

/-- The characters in front of the first slash, and from it on. -/
def component (name : List UInt8) : List UInt8 := name.takeWhile (· ≠ 0x2F)

def ptoken (name : List UInt8) : List UInt8 := name.dropWhile (· ≠ 0x2F)

section

variable (fStrings : Fin 4 → List UInt8)

/-- The name of the first component in the store. -/
def sysComponent (folder : List UInt8) : List UInt8 :=
  if caseEq folder (bytes "INBOX") then inbox
  else match (List.finRange 4).find? fun i => fStrings i = folder with
    | some i => gFolderList i
    | none => folder

end

/-! ### Hexadecimal -/

variable {fStrings : Fin 4 → List UInt8}

/-- The name of a first component that clients may use: it is not that of a built-in folder, but for the
one that the client knows by this name. -/
def Free (fStrings : Fin 4 → List UInt8) (folder : List UInt8) : Prop :=
  ∀ i, gFolderList i = folder → ∃ j, fStrings j = folder

/-- A name that clients may use, with the string `name` that it decodes to. -/
structure Regular (fStrings : Fin 4 → List UInt8) (imapFolder name : List UInt8) : Prop where
  decoded : utf7ToUtf8 imapFolder 512 = some (some name)
  room : imapFolder.length + 1 < 1024
  nonempty : name ≠ []
  no_nul : 0 ∉ name
  no_slash : name.getLast? ≠ some 0x2F
  free : Free fStrings (component name)
  fits : (sysComponent fStrings (component name) ++ ptoken name).length ≤ 511

lemma Regular.length_lt {x name : List UInt8} (h : Regular fStrings x name) : name.length < 512 :=
  length_of_run h.decoded

end SteepSystem.Imap.Folders
