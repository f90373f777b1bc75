import Mathlib.Data.List.Basic
import Mathlib.Data.List.Nodup

/-!
`get_digest`, `set_digest`, `add_digest` and `remove_digest` (`LIBRARY/common/util.c`), which edit
a digest as raw text.

A C string is the list of its characters without the zero at its end, and a pointer into it is what
is left of it from there. `set_digest` and `remove_digest` count the zero in their length: as it
stops none of the loops, they fail one character later than `get_digest`, on the same texts.
-/

namespace SteepSystem.Digests

abbrev Text := List Char

/-- `strncasecmp(p, needle, strlen(needle)) == 0` -/
def StartsWith (needle p : Text) : Prop := needle.map Char.toLower <+: p.map Char.toLower

instance (needle p : Text) : Decidable (StartsWith needle p) :=
  inferInstanceAs (Decidable (_ <+: _))

/-- The needle is never empty. -/
def searchString (needle : Text) : Text → Option Text
  | [] => none
  | c :: p => if StartsWith needle (c :: p) then some (c :: p) else searchString needle p

def quoted (tag : Text) : Text := '"' :: (tag ++ ['"'])

/-- `snprintf(temp_tag, 255, "\"%s\"", tag)`, which returns the length before the cut. -/
def tempTag (tag : Text) : Text := (quoted tag).take 254

/-- Past the tag at `p`, its `:` and the blanks behind it. -/
def valueStart (tag p : Text) : Option Text :=
  match (p.drop (quoted tag).length).dropWhile (· ≠ ':') with
  | [] => none
  | _ :: s => some (s.dropWhile fun c => c = ' ' ∨ c = '\t')

/-- The next quote that no backslash stands before, `b` the character before. -/
def closeQuote (b : Char) : Text → Option Text
  | [] => none
  | c :: s => if c ≠ '"' ∨ b = '\\' then closeQuote c s else some (c :: s)

def memberEnd : Text → Option Text
  | [] => none
  | c :: s => if c = ',' ∨ c = '}' then some (c :: s) else memberEnd s

def valueEnd : Text → Option Text
  | [] => none
  | c :: s => if c = '"' then (closeQuote c s).bind memberEnd else memberEnd (c :: s)

/-- The quotes of `buff` taken off, each on its own. -/
def unquote (buff : Text) : Text :=
  let buff := if buff.head? = some '"' then buff.tail else buff
  if buff.getLast? = some '"' then buff.dropLast else buff

/-- `some buff` where the source returns `TRUE`. -/
def getDigest (src tag : Text) (buffLen : ℕ) : Option Text := do
  let p ← searchString (tempTag tag) src
  let s ← valueStart tag p
  let e ← valueEnd s
  some (unquote ((s.take (s.length - e.length)).take (buffLen - 1)))

/-- `some src` where the source returns `TRUE`; else it leaves `src` as it is. -/
def setDigest (src : Text) (length : ℕ) (tag value : Text) : Option Text := do
  let p ← searchString (tempTag tag) src
  let s ← valueStart tag p
  let e ← valueEnd s
  if src.length + 1 + value.length - (s.length - e.length) > length then none
  else some (src.take (src.length - s.length) ++ value ++ e)

/-- The last `}` up to the place `i`, the first character left out. -/
def lastBrace (src : Text) : ℕ → Option ℕ
  | 0 => none
  | i + 1 => if src[i + 1]? = some '}' then some (i + 1) else lastBrace src i

/-- `length` is the room of the buffer that the text is in. -/
def addDigest (src : Text) (length : ℕ) (tag value : Text) : Option Text :=
  if (searchString (tempTag tag) src).isSome then setDigest src length tag value
  else (lastBrace src src.length).bind fun i =>
    let member := ',' :: (quoted tag ++ ':' :: value)
    if length - i < member.length + 2 then none
    -- a member cut in `temp_buff` ends the text
    else if 1024 ≤ member.length then some (src.take i ++ member.take 1023)
    else some (src.take i ++ member ++ ['}'])

/-- Back to the `,` or `{` before `p`, where `back` are the characters before `p`, the last one
first. The source stops at the front of the text. -/
def memberStart : Text → Text → Option Text
  | [], p => if p.head? = some ',' ∨ p.head? = some '{' then some p else none
  | c :: back, p =>
    if p.head? = some ',' ∨ p.head? = some '{' then some p
    else if back = [] then none
    else memberStart back (c :: p)

def removeDigest (src tag : Text) : Text :=
  let removed := do
    let p ← searchString (tempTag tag) src
    let p ← memberStart (src.take (src.length - p.length)).reverse p
    let p := if p.head? = some '{' then p.tail else p
    let s ← valueStart tag p
    let e ← valueEnd s
    some (src.take (src.length - p.length) ++ e)
  removed.getD src

/-- A member of a digest, with the blanks before its key, before its `:` and before its value. -/
structure Member where
  before : Text
  key : Text
  behind : Text
  gap : Text
  value : Text

/-- A member from its key on. -/
def Member.named (m : Member) : Text := quoted m.key ++ (m.behind ++ ':' :: (m.gap ++ m.value))

def Member.text (m : Member) : Text := m.before ++ m.named

/-- What `add_digest` puts behind the members. -/
def Member.plain (tag value : Text) : Member := ⟨[], tag, [], [], value⟩

def Blank (s : Text) : Prop := ∀ c ∈ s, c = ' ' ∨ c = '\t'

/-- Members, each behind a separator, and the `}`. -/
def joined (c : Char) : List Member → Text
  | [] => ['}']
  | m :: ms => c :: (m.text ++ joined ',' ms)

def text : List Member → Text
  | [] => ['{', '}']
  | m :: ms => joined '{' (m :: ms)

/-- The text between the quotes of a string. -/
def Escaped : Text → Prop
  | [] => True
  | [c] => c ≠ '"' ∧ c ≠ '\\'
  | c :: d :: s => if c = '\\' then Escaped s else c ≠ '"' ∧ Escaped (d :: s)

/-- An element of an array between blanks. -/
structure Element where
  before : Text
  value : Text
  behind : Text

def Element.text (e : Element) : Text := e.before ++ e.value ++ e.behind

/-- The texts of values: strings, numbers and the literals, and arrays and objects of values. A
member of an object comes with the blanks behind it. -/
inductive Json : Text → Prop
  | string {s : Text} (hs : Escaped s) : Json (quoted s)
  | scalar {s : Text} (hs : s ≠ []) (h : ∀ c ∈ s, c.isAlphanum ∨ c ∈ ['+', '-', '.']) : Json s
  | array {b : Text} {es : List Element} (hb : Blank b)
    (hes : ∀ e ∈ es, Blank e.before ∧ Blank e.behind) (h : ∀ e ∈ es, Json e.value) :
    Json ('[' :: (b ++ [','].intercalate (es.map Element.text) ++ [']']))
  | object {b : Text} {ms : List (Member × Text)} (hb : Blank b)
    (hms : ∀ m ∈ ms, Blank m.1.before ∧ Blank m.1.behind ∧ Blank m.1.gap ∧ Blank m.2)
    (hk : ∀ m ∈ ms, Escaped m.1.key) (h : ∀ m ∈ ms, Json m.1.value) :
    Json ('{' :: (b ++ [','].intercalate (ms.map fun m => m.1.text ++ m.2) ++ ['}']))

structure WellFormed (ms : List Member) : Prop where
  nodup : (ms.map Member.key).Nodup
  key : ∀ m ∈ ms, Escaped m.key
  blank : ∀ m ∈ ms, Blank m.before ∧ Blank m.behind ∧ Blank m.gap
  value : ∀ m ∈ ms, Json m.value

def lookup (ms : List Member) (tag : Text) : Option Text :=
  (ms.find? fun m => m.key = tag).map Member.value

def update (ms : List Member) (tag value : Text) : List Member :=
  ms.map fun m => if m.key = tag then { m with value := value } else m

/-- What a value is to its reader: a string without its quotes. -/
def content : Text → Text
  | [] => []
  | c :: s => if c = '"' then s.dropLast else c :: s

/-- The value ends where the source looks for its end: a string has no backslash before its last
quote, and another value has neither a `,` nor a `}` inside. -/
def Ends : Text → Prop
  | [] => False
  | c :: s => if c = '"' then s.dropLast.getLast? ≠ some '\\'
    else ∀ d ∈ c :: s, d ≠ ',' ∧ d ≠ '}'

/-- The tag fits `temp_tag` and has none of the characters that separate members. -/
structure Plain (tag : Text) : Prop where
  length : tag.length ≤ 252
  separators : ∀ c ∈ tag, c ∉ [',', ':', '{', '}']

/-- The quoted tag stands neither in the quoted key nor in the value. -/
def Avoids (tag : Text) (m : Member) : Prop :=
  searchString (tempTag tag) (quoted m.key ++ m.behind) = none ∧
    searchString (tempTag tag) m.value = none

/-- The members before the one of the tag avoid it. -/
def Clear (tag : Text) : List Member → Prop
  | [] => True
  | m :: ms => m.key = tag ∨ Avoids tag m ∧ Clear tag ms

end SteepSystem.Digests
