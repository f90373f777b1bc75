import SteepSystem.Lib.CStrings

/-!
The sets of message numbers of IMAP commands: `imap_cmd_parser_parse_squence` and
`imap_cmd_parser_hint_squence` (`imap_cmd_parser.c`), and their copies in `mail_engine.c`.
-/

namespace SteepSystem.Imap.Squences

open SteepSystem.Lib.CStrings

structure SquenceNode where
  min : ℤ
  max : ℤ
  deriving DecidableEq

/-- `"*"` -/
def star : List UInt8 := [0x2A]

/-- The text from `last_break` to `last_colon` and from there on, and the nodes. -/
structure Scan where
  first : List UInt8
  second : Option (List UInt8)
  nodes : List SquenceNode

def Scan.push (s : Scan) (c : UInt8) : Scan :=
  match s.second with
  | none => { s with first := s.first ++ [c] }
  | some second => { s with second := some (second ++ [c]) }

/-- The string up to a comma at its end, which is put there unless it has one. An empty string has
its last byte in front of it. -/
def terminated (front : UInt8) (string : List UInt8) : List UInt8 :=
  if string.getLast?.getD front = 0x2C then string else string ++ [0x2C]

def swap (node : SquenceNode) : SquenceNode := ⟨node.max, node.min⟩

/-- A bound of a range. -/
inductive Bound
  | star
  | number (digits : List UInt8)

inductive Item
  | single (digits : List UInt8)
  | range (a b : Bound)

/-- The digits of a positive `int`. -/
structure Digits (ds : List UInt8) : Prop where
  ne : ds ≠ []
  digit : ∀ c ∈ ds, isdigit c
  pos : 0 < ofDigits ds
  lt : ofDigits ds < 2 ^ 31

namespace Bound

def text : Bound → List UInt8
  | star => Squences.star
  | number ds => ds

def Ok : Bound → Prop
  | star => True
  | number ds => Digits ds

def value (max : ℕ) : Bound → ℕ
  | star => max
  | number ds => ofDigits ds

end Bound

namespace Item

def text : Item → List UInt8
  | single ds => ds
  | range a b => a.text ++ 0x3A :: b.text

def Ok : Item → Prop
  | single ds => Digits ds
  | range a b => a.Ok ∧ b.Ok

end Item

/-- What this development says nothing about: a star directly behind a digit, and numbers from
`2 ^ 31` on. -/
structure Plain (s : List UInt8) : Prop where
  star : ∀ c, isdigit c → ¬ [c, 0x2A] <:+: s
  small : ∀ t, t <:+: s → (∀ c ∈ t, isdigit c) → ofDigits t < 2 ^ 31

/-- A text between commas and colons. -/
def Token (t : List UInt8) : Prop := ∀ c ∈ t, isdigit c ∨ c = 0x2A

namespace Item

def first : Item → List UInt8
  | single ds => ds
  | range a _ => a.text

def second : Item → Option (List UInt8)
  | single _ => none
  | range _ b => some b.text

def node : Item → SquenceNode
  | single ds => ⟨ofDigits ds, ofDigits ds⟩
  | range .star .star => ⟨-1, -1⟩
  | range .star (.number ds) => ⟨ofDigits ds, -1⟩
  | range (.number ds) .star => ⟨ofDigits ds, -1⟩
  | range (.number ds) (.number ds') => ⟨ofDigits ds, ofDigits ds'⟩

end Item

section Tokens

variable {s t : List UInt8} {first : List UInt8} {second : Option (List UInt8)} {node : SquenceNode}

lemma Plain.part (h : Plain s) (ht : t <:+: s) : Plain t :=
  ⟨fun c hc hin => h.star c hc (hin.trans ht), fun u hu => h.small u (hu.trans ht)⟩

lemma Digits.token (h : Digits t) : Token t := fun c hc => .inl (h.digit c hc)

lemma Digits.atoi (h : Digits t) : atoi t = ofDigits t := by
  have hlt := h.lt
  rw [Lib.CStrings.atoi, strtol_digits h.digit (by omega)]
  exact Int.bmod_eq_of_le (by omega) (by omega)

/-- What is collected for an item, as it stands in the text. -/
def pending (first : List UInt8) : Option (List UInt8) → List UInt8
  | none => first
  | some second => first ++ 0x3A :: second

lemma Item.pending (i : Item) : pending i.first i.second = i.text := by cases i <;> rfl

end Tokens

/-! ### The loop -/

section Loop

variable {limit : Option ℕ} {order : SquenceNode → SquenceNode} {s : Scan} {string : List UInt8}

lemma Bound.token {b : Bound} (h : b.Ok) : Token b.text := by
  cases b with
  | star => exact fun c hc => .inr (List.mem_singleton.mp hc)
  | number ds => exact Digits.token h

end Loop

/-! ### Sets -/

section Sets

variable {s : List UInt8} {items : List Item} {front : UInt8}

end Sets

end SteepSystem.Imap.Squences
