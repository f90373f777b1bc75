import SteepSystem.Lib.CStrings

/-!
`parse_imap_args` (`LIBRARY/common/mail_func.c`): the arguments of a command line, which is rewritten in
place. Arguments are offsets in the line; `none` where memory outside of the line is read.
-/

namespace SteepSystem.Imap.Arguments

open SteepSystem.Lib.CStrings

/-- The line in front of `ptr` and from there on, with the variables of the loop. An argument is an
offset, or `none` for the constant `""`. -/
structure Scan where
  front : List UInt8
  rest : List UInt8
  argv : List (Option ℕ)
  lastSpace : ℕ
  lastQuota : Bool
  lastSquare : Bool
  lastBracket : Bool
  sCount : ℕ
  bCount : ℕ
  isQuoted : Bool

inductive Turn
  | fail
  | outside
  | next (s : Scan)

/-- The `length` bytes behind a literal's braces are passed over, or as many in front of them are read
again. -/
def move (s : Scan) (text : List UInt8) (length : ℤ) : Turn :=
  if 0 ≤ length then
    if length.toNat < text.length then
      .next { s with front := s.front ++ text.take length.toNat, rest := text.drop length.toNat }
    else .outside
  else if (-length).toNat ≤ s.front.length then
    let n := s.front.length - (-length).toNat
    .next { s with front := s.front.take n, rest := s.front.drop n ++ text }
  else .outside

/-- The header of a literal is removed, where a brace ends it in the next sixteen bytes. -/
def literal (s : Scan) (t : List UInt8) : Turn :=
  let digits := t.takeWhile (· ≠ 0x7D)
  if digits.length < 16 then
    if digits.length < t.length then move s (t.drop (digits.length + 1)) (atoi digits)
    else .outside
  else .fail

def squares (c : UInt8) (s : Scan) : Scan :=
  if c = 0x5B ∧ !s.lastQuota then
    if s.lastSquare then { s with sCount := s.sCount + 1 } else { s with lastSquare := true, sCount := 0 }
  else if c = 0x5D ∧ s.lastSquare then
    if s.sCount = 0 then { s with lastSquare := false } else { s with sCount := s.sCount - 1 }
  else s

def brackets (c : UInt8) (s : Scan) : Scan :=
  if c = 0x28 ∧ !s.lastQuota then
    if s.lastBracket then { s with bCount := s.bCount + 1 }
    else { s with lastBracket := true, bCount := 0 }
  else if c = 0x29 ∧ s.lastBracket then
    if s.bCount = 0 then { s with lastBracket := false } else { s with bCount := s.bCount - 1 }
  else s

/-- A space outside of quotes and brackets ends the argument, if there is one. -/
def space (s : Scan) (t : List UInt8) : Scan :=
  if s.front.length = s.lastSpace ∧ !s.isQuoted then
    { s with front := s.front ++ [0x20], rest := t, lastSpace := s.lastSpace + 1 }
  else
    let arg := if !s.isQuoted ∧ caseEq (cstr ((s.front ++ 0 :: t).drop s.lastSpace)) (bytes "NIL") then none
      else some s.lastSpace
    { s with front := s.front ++ [0], rest := t, argv := s.argv ++ [arg],
             lastSpace := s.front.length + 1, isQuoted := false }

/-- What is done with a character that is no brace and no quotation mark. -/
def char (s : Scan) : Turn :=
  match s.rest with
  | [] => .outside
  | c :: t =>
    let s := brackets c (squares c s)
    if c = 0x20 ∧ !s.lastQuota ∧ !s.lastBracket ∧ !s.lastSquare then .next (space s t)
    else .next { s with front := s.front ++ [c], rest := t }

def quota (s : Scan) : Turn :=
  match s.rest with
  | [] => .outside
  | c :: t =>
    if c = 0x22 then
      if s.lastQuota then char { s with rest := t, lastQuota := false }
      else .next { s with rest := t, isQuoted := true, lastQuota := true }
    else char s

def turn (s : Scan) : Turn :=
  match s.rest with
  | [] => .outside
  | c :: t =>
    if c = 0x7B ∧ !s.lastQuota then
      match literal s t with
      | .next s => quota s
      | r => r
    else quota s

/-- The offsets with the line as it is left, or `some none` for `-1`. -/
def loop (argmax : ℕ) : ℕ → Scan → Option (Option (List (Option ℕ) × List UInt8))
  | 0, _ => none
  | fuel + 1, s =>
    if s.rest ≠ [] ∧ s.argv.length < argmax - 1 then
      match turn s with
      | .fail => some none
      | .outside => none
      | .next s => loop argmax fuel s
    else if s.lastQuota ∨ s.lastBracket ∨ s.lastSquare then some none
    else some (some (s.argv, s.front ++ s.rest))

def parseImapArgs (cmdline : List UInt8) (argmax : ℕ) :
    Option (Option (List (Option ℕ) × List UInt8)) :=
  loop argmax ((cmdline.length + 2) ^ 2)
    ⟨[], cmdline ++ [0x20], [], 0, false, false, false, 0, 0, false⟩

/-- The string that an argument is. -/
def argument (line : List UInt8) : Option ℕ → List UInt8
  | none => []
  | some i => cstr (line.drop i)

example : (parseImapArgs (bytes "a1 {2}xy (b \"c d\") NIL \"\"") 10).map (Option.map fun r =>
    r.1.map (argument r.2)) = some (some [bytes "a1", bytes "xy", bytes "(b c d)", [], []]) := by
  decide +kernel

/-! ### Command lines -/

inductive Token
  | opening
  | closing
  | openSquare
  | closeSquare
  | byte (c : UInt8)
  | quoted (s : List UInt8)

namespace Token

def text : Token → List UInt8
  | opening => [0x28]
  | closing => [0x29]
  | openSquare => [0x5B]
  | closeSquare => [0x5D]
  | byte c => [c]
  | quoted s => 0x22 :: s ++ [0x22]

def value : Token → List UInt8
  | quoted s => s
  | t => t.text

end Token

/-- A character that has no meaning of its own to the parser, but for the space. -/
def Ordinary (c : UInt8) : Prop :=
  c ≠ 0 ∧ c ≠ 0x22 ∧ c ≠ 0x7B ∧ c ≠ 0x28 ∧ c ≠ 0x29 ∧ c ≠ 0x5B ∧ c ≠ 0x5D

/-- Tokens that close `b` brackets and `q` square ones, with spaces and strings only within them. -/
def Valid : ℕ → ℕ → List Token → Prop
  | b, q, [] => b = 0 ∧ q = 0
  | b, q, .opening :: l => Valid (b + 1) q l
  | b, q, .closing :: l => 0 < b ∧ Valid (b - 1) q l
  | b, q, .openSquare :: l => Valid b (q + 1) l
  | b, q, .closeSquare :: l => 0 < q ∧ Valid b (q - 1) l
  | b, q, .byte c :: l => Ordinary c ∧ (c = 0x20 → 0 < b ∨ 0 < q) ∧ Valid b q l
  | b, q, .quoted s :: l => (0 < b ∨ 0 < q) ∧
    (∀ c ∈ s, c ≠ 0 ∧ c ≠ 0x22 ∧ c ≠ 0x29 ∧ c ≠ 0x5D) ∧
    (∀ s', l.head? ≠ some (.quoted s')) ∧ Valid b q l

/-- An atom or a list, a quoted string, or a literal. -/
inductive Arg
  | bare (l : List Token)
  | quoted (s : List UInt8)
  | literal (s : List UInt8)

namespace Arg

def text : Arg → List UInt8
  | bare l => l.flatMap Token.text
  | quoted s => 0x22 :: s ++ [0x22]
  | literal s => 0x7B :: decimal s.length ++ 0x7D :: s

/-- A list without the quotation marks in it; `NIL` is the empty string. -/
def value : Arg → List UInt8
  | bare l => if caseEq (l.flatMap Token.value) (bytes "NIL") then [] else l.flatMap Token.value
  | quoted s => s
  | literal s => s

def Ok : Arg → Prop
  | bare l => l ≠ [] ∧ Valid 0 0 l
  | quoted s => ∀ c ∈ s, c ≠ 0 ∧ c ≠ 0x22
  | literal s => s ≠ [] ∧ 0 ∉ s ∧ s.length < 2 ^ 31 ∧ ¬ caseEq s (bytes "NIL")

end Arg

/-- The arguments with single spaces. -/
def commandLine (args : List Arg) : List UInt8 := [0x20].intercalate (args.map Arg.text)

/-! ### Turns -/

variable {argmax : ℕ} {s s' s'' : Scan}

/-- The run from one state is that from another, with what the input in between needs of fuel. -/
def Reaches (argmax : ℕ) (s s' : Scan) : Prop :=
  ∃ k, k + s'.rest.length ≤ s.rest.length ∧ ∀ f, loop argmax (f + k) s = loop argmax f s'

lemma Reaches.refl : Reaches argmax s s := ⟨0, by omega, fun _ => rfl⟩

lemma Reaches.trans (h : Reaches argmax s s') (h' : Reaches argmax s' s'') : Reaches argmax s s'' := by
  obtain ⟨k, hk, hf⟩ := h
  obtain ⟨k', hk', hf'⟩ := h'
  refine ⟨k' + k, by omega, fun f => ?_⟩
  rw [← add_assoc, hf, hf']

lemma reaches_of_turn (h : turn s = .next s') (hne : s.rest ≠ []) (hargs : s.argv.length < argmax - 1)
    (hlt : s'.rest.length < s.rest.length) : Reaches argmax s s' := by
  refine ⟨1, by omega, fun f => ?_⟩
  rw [loop, if_pos ⟨hne, hargs⟩, h]

/-- Two states with the same next turn. -/
lemma reaches_of_eq (h : turn s = turn s') (hne : s.rest ≠ []) (hne' : s'.rest ≠ [])
    (hargs : s.argv.length < argmax - 1) (hargv : s'.argv = s.argv)
    (hle : s'.rest.length ≤ s.rest.length) : Reaches argmax s s' := by
  refine ⟨0, by omega, fun f => ?_⟩
  cases f with
  | zero => rfl
  | succ f => rw [loop, loop, if_pos ⟨hne, hargs⟩, if_pos ⟨hne', by rwa [hargv]⟩, h]

lemma turn_eq_char {c : UInt8} {t : List UInt8} (hrest : s.rest = c :: t) (hquote : c ≠ 0x22)
    (hbrace : c = 0x7B → s.lastQuota) : turn s = char s := by
  rw [turn, hrest]
  dsimp only
  rw [if_neg, quota, hrest]
  · exact if_neg hquote
  · rintro ⟨h, hnot⟩
    rw [hbrace h] at hnot
    cases hnot

/-- A character within quotes. -/
lemma reaches_quoted_char {c : UInt8} {t : List UInt8} (hrest : s.rest = c :: t)
    (hquota : s.lastQuota) (hc : c ≠ 0x22) (hclose : s.lastBracket → c ≠ 0x29)
    (hsquare : s.lastSquare → c ≠ 0x5D) (hargs : s.argv.length < argmax - 1) :
    Reaches argmax s { s with front := s.front ++ [c], rest := t } := by
  refine reaches_of_turn ?_ (by simp [hrest]) hargs (by simp [hrest])
  rw [turn_eq_char hrest hc (fun _ => hquota), char, hrest]
  have hsq : squares c s = s := by
    rw [squares, if_neg (by simp [hquota]), if_neg (fun h => hsquare h.2 h.1)]
  have hbr : brackets c s = s := by
    rw [brackets, if_neg (by simp [hquota]), if_neg (fun h => hclose h.2 h.1)]
  dsimp only
  rw [hsq, hbr, if_neg]
  simp [hquota]

lemma reaches_string {str t : List UInt8} {c : UInt8} (hrest : s.rest = str ++ 0x22 :: c :: t)
    (hquota : s.lastQuota) (hstr : ∀ x ∈ str, x ≠ 0x22 ∧ (s.lastBracket → x ≠ 0x29) ∧
      (s.lastSquare → x ≠ 0x5D)) (hc : c ≠ 0x22) (hbrace : c ≠ 0x7B)
    (hargs : s.argv.length < argmax - 1) :
    Reaches argmax s { s with front := s.front ++ str, rest := c :: t, lastQuota := false } := by
  induction str generalizing s with
  | nil =>
    refine reaches_of_eq ?_ (by simp [hrest]) (by simp) hargs rfl (by simp [hrest])
    rw [List.append_nil]
    refine Eq.trans ?_ (turn_eq_char rfl hc (fun h => absurd h hbrace)).symm
    rw [turn, hrest]
    dsimp only [List.nil_append]
    rw [if_neg (by simp), quota, hrest]
    dsimp only [List.nil_append]
    rw [if_pos rfl, if_pos hquota]
  | cons x str ih =>
    rw [List.forall_mem_cons] at hstr
    refine (reaches_quoted_char hrest hquota hstr.1.1 hstr.1.2.1 hstr.1.2.2 hargs).trans ?_
    have := ih (s := { s with front := s.front ++ [x], rest := str ++ 0x22 :: c :: t }) rfl hquota
      hstr.2 hargs
    simpa using this

/-- A value with brackets, which is not `NIL`. -/
def HasBracket (v : List UInt8) : Prop := 0x28 ∈ v ∨ 0x5B ∈ v

/-- A flag and a counter for `d` open brackets. -/
def Depth (flag : Bool) (count d : ℕ) : Prop := flag = decide (0 < d) ∧ (0 < d → count + 1 = d)

lemma depth_open {flag : Bool} {count d : ℕ} (h : Depth flag count d) :
    Depth true (if flag then count + 1 else 0) (d + 1) := by
  refine ⟨by simp, fun _ => ?_⟩
  split
  · rw [h.2 (by simpa [‹flag = true›] using h.1)]
  · have hd : ¬ 0 < d := by simpa [Bool.not_eq_true _ ▸ ‹¬ flag = true›] using h.1
    omega

lemma depth_close {flag : Bool} {count d : ℕ} (h : Depth flag count d) (hd : 0 < d) :
    Depth (if count = 0 then false else flag) (if count = 0 then count else count - 1) (d - 1) := by
  have hcount := h.2 hd
  split
  · exact ⟨by simp; omega, fun _ => by omega⟩
  · refine ⟨?_, fun _ => by omega⟩
    rw [h.1]
    simp
    omega

/-- Behind `front`, within `b` brackets and `q` square ones, the argument is `v` so far. -/
structure Within (front : List UInt8) (s : Scan) (v : List UInt8) (b q : ℕ) : Prop where
  front_eq : s.front = front ++ v
  lastSpace : s.lastSpace = front.length
  lastQuota : s.lastQuota = false
  bracket : Depth s.lastBracket s.bCount b
  square : Depth s.lastSquare s.sCount q
  depth : 0 < b ∨ 0 < q → HasBracket v
  isQuoted : s.isQuoted → HasBracket v

variable {front v r : List UInt8} {b q b' q' : ℕ}

lemma HasBracket.append (h : HasBracket v) (w : List UInt8) : HasBracket (v ++ w) :=
  h.imp (List.mem_append_left w) (List.mem_append_left w)

/-- The token is read, and `b` and `q` are the depths behind it. -/
def Read (argmax : ℕ) (front : List UInt8) (s : Scan) (v r : List UInt8) (b q : ℕ) : Prop :=
  ∃ s', Reaches argmax s s' ∧ Within front s' v b q ∧ s'.rest = r ∧ s'.argv = s.argv

lemma read_char {c : UInt8} (h : Within front s v b q) (hrest : s.rest = c :: r) (hquote : c ≠ 0x22)
    (hbrace : c ≠ 0x7B) (hargs : s.argv.length < argmax - 1) {x z : Bool} {y w : ℕ}
    (hs : brackets c (squares c s) =
      { s with lastSquare := x, sCount := y, lastBracket := z, bCount := w })
    (hsquare : Depth x y q') (hbracket : Depth z w b') (hspace : c = 0x20 → z ∨ x)
    (hdepth : 0 < b' ∨ 0 < q' → HasBracket (v ++ [c])) : Read argmax front s (v ++ [c]) r b' q' := by
  refine ⟨{ s with front := s.front ++ [c], rest := r, lastSquare := x, sCount := y,
                   lastBracket := z, bCount := w }, ?_, ?_, rfl, rfl⟩
  · refine reaches_of_turn ?_ (by simp [hrest]) hargs (by simp [hrest])
    rw [turn_eq_char hrest hquote (fun h => absurd h hbrace), char, hrest]
    dsimp only
    rw [hs, if_neg]
    rintro ⟨hc, -, hz, hx⟩
    rcases hspace hc with rfl | rfl
    · cases hz
    · cases hx
  · refine ⟨?_, h.lastSpace, h.lastQuota, hbracket, hsquare, hdepth, fun hq => ?_⟩
    · rw [← List.append_assoc, ← h.front_eq]
    · exact (h.isQuoted hq).append _

lemma read_opening (h : Within front s v b q) (hrest : s.rest = 0x28 :: r)
    (hargs : s.argv.length < argmax - 1) : Read argmax front s (v ++ [0x28]) r (b + 1) q := by
  refine read_char h hrest (by decide) (by decide) hargs ?_ h.square (depth_open h.bracket)
    (fun hc => absurd hc (by decide)) (fun _ => Or.inl (by simp))
  cases hflag : s.lastBracket with
  | true => simp [brackets, squares, h.lastQuota, hflag]
  | false => simp [brackets, squares, h.lastQuota, hflag]

lemma read_openSquare (h : Within front s v b q) (hrest : s.rest = 0x5B :: r)
    (hargs : s.argv.length < argmax - 1) : Read argmax front s (v ++ [0x5B]) r b (q + 1) := by
  refine read_char h hrest (by decide) (by decide) hargs ?_ (depth_open h.square) h.bracket
    (fun hc => absurd hc (by decide)) (fun _ => Or.inr (by simp))
  cases hflag : s.lastSquare with
  | true => simp [brackets, squares, h.lastQuota, hflag]
  | false => simp [brackets, squares, h.lastQuota, hflag]

lemma read_closing (h : Within front s v b q) (hb : 0 < b) (hrest : s.rest = 0x29 :: r)
    (hargs : s.argv.length < argmax - 1) : Read argmax front s (v ++ [0x29]) r (b - 1) q := by
  have hflag : s.lastBracket = true := by
    rw [h.bracket.1]
    exact decide_eq_true hb
  refine read_char h hrest (by decide) (by decide) hargs ?_ h.square (depth_close h.bracket hb)
    (fun hc => absurd hc (by decide)) (fun _ => (h.depth (Or.inl hb)).append _)
  by_cases hcount : s.bCount = 0
  · simp [brackets, squares, hflag, hcount]
  · simp [brackets, squares, hflag, hcount]

lemma read_closeSquare (h : Within front s v b q) (hq : 0 < q) (hrest : s.rest = 0x5D :: r)
    (hargs : s.argv.length < argmax - 1) : Read argmax front s (v ++ [0x5D]) r b (q - 1) := by
  have hflag : s.lastSquare = true := by
    rw [h.square.1]
    exact decide_eq_true hq
  refine read_char h hrest (by decide) (by decide) hargs ?_ (depth_close h.square hq) h.bracket
    (fun hc => absurd hc (by decide)) (fun _ => (h.depth (Or.inr hq)).append _)
  by_cases hcount : s.sCount = 0
  · simp [brackets, squares, hflag, hcount]
  · simp [brackets, squares, hflag, hcount]

lemma read_byte {c : UInt8} (h : Within front s v b q) (hc : Ordinary c)
    (hspace : c = 0x20 → 0 < b ∨ 0 < q) (hrest : s.rest = c :: r)
    (hargs : s.argv.length < argmax - 1) : Read argmax front s (v ++ [c]) r b q := by
  obtain ⟨-, hquote, hbrace, h1, h2, h3, h4⟩ := hc
  refine read_char h hrest hquote hbrace hargs (x := s.lastSquare) (y := s.sCount)
    (z := s.lastBracket) (w := s.bCount) ?_ h.square h.bracket (fun hc => ?_)
    (fun hd => (h.depth hd).append _)
  · simp [brackets, squares, h1, h2, h3, h4]
  · rw [h.bracket.1, h.square.1]
    simpa using hspace hc

/-- A string with its quotation marks. -/
lemma reaches_quoted {str t : List UInt8} {c : UInt8} (hquota : s.lastQuota = false)
    (hstr : ∀ x ∈ str, x ≠ 0x22 ∧ (s.lastBracket → x ≠ 0x29) ∧ (s.lastSquare → x ≠ 0x5D))
    (hrest : s.rest = 0x22 :: str ++ 0x22 :: c :: t) (hc : c ≠ 0x22) (hbrace : c ≠ 0x7B)
    (hargs : s.argv.length < argmax - 1) : Reaches argmax s
      { s with front := s.front ++ str, rest := c :: t, lastQuota := false, isQuoted := true } := by
  have hopen : turn s =
      .next { s with rest := str ++ 0x22 :: c :: t, isQuoted := true, lastQuota := true } := by
    rw [turn, hrest]
    dsimp only [List.cons_append]
    rw [if_neg (by simp), quota, hrest]
    dsimp only [List.cons_append]
    rw [if_pos rfl, if_neg (by simp [hquota])]
  obtain ⟨s₁, hs₁⟩ : ∃ s₁, s₁ =
      { s with rest := str ++ 0x22 :: c :: t, isQuoted := true, lastQuota := true } := ⟨_, rfl⟩
  rw [← hs₁] at hopen
  have hstring : Reaches argmax s₁ _ :=
    reaches_string (by rw [hs₁]) (by rw [hs₁]) (by rwa [hs₁]) hc hbrace (by rwa [hs₁])
  subst hs₁
  exact (reaches_of_turn hopen (by simp [hrest]) hargs (by simp [hrest])).trans hstring

/-- A string in a list. -/
lemma read_quoted {str t : List UInt8} {c : UInt8} (h : Within front s v b q) (hin : 0 < b ∨ 0 < q)
    (hstr : ∀ x ∈ str, x ≠ 0x22 ∧ x ≠ 0x29 ∧ x ≠ 0x5D)
    (hrest : s.rest = 0x22 :: str ++ 0x22 :: c :: t) (hc : c ≠ 0x22) (hbrace : c ≠ 0x7B)
    (hargs : s.argv.length < argmax - 1) : Read argmax front s (v ++ str) (c :: t) b q := by
  refine ⟨_, reaches_quoted h.lastQuota (fun x hx => ⟨(hstr x hx).1, fun _ => (hstr x hx).2.1,
    fun _ => (hstr x hx).2.2⟩) hrest hc hbrace hargs,
    ⟨?_, h.lastSpace, rfl, h.bracket, h.square, fun hd => (h.depth hd).append _,
      fun _ => (h.depth hin).append _⟩, rfl, rfl⟩
  rw [← List.append_assoc, ← h.front_eq]

/-- The tokens of an argument, in front of a space. -/
lemma read_tokens {l : List Token} {t : List UInt8} (h : Within front s v b q) (hl : Valid b q l)
    (hrest : s.rest = l.flatMap Token.text ++ 0x20 :: t) (hargs : s.argv.length < argmax - 1) :
    Read argmax front s (v ++ l.flatMap Token.value) (0x20 :: t) 0 0 := by
  induction l generalizing s v b q with
  | nil =>
    obtain ⟨rfl, rfl⟩ := hl
    exact ⟨s, Reaches.refl, by simpa using h, hrest, rfl⟩
  | cons tok l ih =>
    have hgoes {b' q' : ℕ} (hread : Read argmax front s (v ++ tok.value)
        (l.flatMap Token.text ++ 0x20 :: t) b' q') (hl : Valid b' q' l) :
        Read argmax front s (v ++ (tok :: l).flatMap Token.value) (0x20 :: t) 0 0 := by
      obtain ⟨s', hreach, hwithin, hrest', hargv⟩ := hread
      obtain ⟨s'', hreach', hwithin', hrest'', hargv'⟩ := ih hwithin hl hrest' (by rwa [hargv])
      refine ⟨s'', hreach.trans hreach', ?_, hrest'', hargv'.trans hargv⟩
      rwa [List.flatMap_cons, ← List.append_assoc]
    cases tok with
    | opening => exact hgoes (read_opening h hrest hargs) hl
    | closing => exact hgoes (read_closing h hl.1 hrest hargs) hl.2
    | openSquare => exact hgoes (read_openSquare h hrest hargs) hl
    | closeSquare => exact hgoes (read_closeSquare h hl.1 hrest hargs) hl.2
    | byte c => exact hgoes (read_byte h hl.1 hl.2.1 hrest hargs) hl.2.2
    | quoted str =>
      obtain ⟨hin, hstr, hnext, hl⟩ := hl
      refine hgoes ?_ hl
      obtain ⟨c, t', hct, hc, hbrace⟩ : ∃ c t', l.flatMap Token.text ++ 0x20 :: t = c :: t' ∧
          c ≠ 0x22 ∧ c ≠ 0x7B := by
        cases l with
        | nil => exact ⟨_, _, rfl, by decide, by decide⟩
        | cons tok l =>
          cases tok with
          | opening | closing | openSquare | closeSquare => exact ⟨_, _, rfl, by decide, by decide⟩
          | byte c => exact ⟨_, _, rfl, hl.1.2.1, hl.1.2.2.1⟩
          | quoted s' => exact absurd rfl (hnext s')
      rw [hct]
      change Read argmax front s (v ++ str) (c :: t') b q
      refine read_quoted h hin (fun x hx => (hstr x hx).2) ?_ hc hbrace hargs
      rw [hrest, List.flatMap_cons, List.append_assoc, hct]
      simp [Token.text]

/-- Behind `front` the next argument begins. -/
def Fresh (front : List UInt8) (s : Scan) : Prop := Within front s [] 0 0

lemma not_hasBracket_nil : ¬ HasBracket [] := fun h => h.elim List.not_mem_nil List.not_mem_nil

lemma Fresh.isQuoted (h : Fresh front s) : s.isQuoted = false := by
  cases hq : s.isQuoted with
  | false => rfl
  | true => exact absurd (Within.isQuoted h hq) not_hasBracket_nil

/-- What `argv` gets for the string `v` behind `front`. -/
def entry (front v : List UInt8) (isQuoted : Bool) : Option ℕ :=
  if !isQuoted ∧ caseEq v (bytes "NIL") then none else some front.length

lemma cstr_argument {v : List UInt8} (h : 0 ∉ v) (front behind : List UInt8) :
    cstr ((front ++ v ++ 0 :: behind).drop front.length) = v := by
  rw [List.append_assoc, List.drop_left, cstr_append_nul h]

lemma argument_entry {v : List UInt8} (h : 0 ∉ v) (isQuoted : Bool) (behind : List UInt8) :
    argument (front ++ v ++ 0 :: behind) (entry front v isQuoted) =
      if !isQuoted ∧ caseEq v (bytes "NIL") then [] else v := by
  rw [entry]
  split
  · rfl
  · exact cstr_argument h front behind

/-- A space ends the argument. -/
lemma reaches_space {t : List UInt8} (hfront : s.front = front ++ v)
    (hspace : s.lastSpace = front.length) (hquota : s.lastQuota = false)
    (hbracket : s.lastBracket = false) (hsquare : s.lastSquare = false)
    (hne : v ≠ [] ∨ s.isQuoted) (hnul : 0 ∉ v) (hrest : s.rest = 0x20 :: t)
    (hargs : s.argv.length < argmax - 1) :
    ∃ s', Reaches argmax s s' ∧ Fresh (front ++ v ++ [0]) s' ∧ s'.rest = t ∧
      s'.argv = s.argv ++ [entry front v s.isQuoted] := by
  have hturn : turn s = .next (space s t) := by
    rw [turn_eq_char hrest (by decide) (fun h => absurd h (by decide)), char, hrest]
    simp [brackets, squares, hquota, hbracket, hsquare]
  have hnot : ¬ (s.front.length = s.lastSpace ∧ !s.isQuoted) := by
    rintro ⟨hlen, hq⟩
    rcases hne with hv | hq'
    · rw [hfront, hspace, List.length_append] at hlen
      exact hv (List.length_eq_zero_iff.mp (by omega))
    · rw [hq'] at hq
      cases hq
  have hvalue : cstr ((s.front ++ 0 :: t).drop s.lastSpace) = v := by
    rw [hfront, hspace, cstr_argument hnul]
  rw [space, if_neg hnot] at hturn
  dsimp only at hturn
  rw [hvalue] at hturn
  refine ⟨_, reaches_of_turn hturn (by simp [hrest]) hargs (by simp [hrest]),
    ⟨?_, ?_, hquota, ⟨by simp [hbracket], by simp⟩, ⟨by simp [hsquare], by simp⟩, by simp, by simp⟩,
    rfl, ?_⟩
  · simp [hfront]
  · simp [hfront]
    omega
  · rw [entry, hspace]

lemma not_mem_value {l : List Token} (h : Valid b q l) : 0 ∉ l.flatMap Token.value := by
  induction l generalizing b q with
  | nil => exact List.not_mem_nil
  | cons tok l ih =>
    rw [List.flatMap_cons, List.mem_append, not_or]
    cases tok with
    | opening => exact ⟨by decide, ih h⟩
    | closing => exact ⟨by decide, ih h.2⟩
    | openSquare => exact ⟨by decide, ih h⟩
    | closeSquare => exact ⟨by decide, ih h.2⟩
    | byte c => exact ⟨fun hc => h.1.1 (List.mem_singleton.mp hc).symm, ih h.2.2⟩
    | quoted str => exact ⟨fun hc => (h.2.1 0 hc).1 rfl, ih h.2.2.2⟩

lemma value_ne_nil {l : List Token} (hne : l ≠ []) (h : Valid 0 0 l) :
    l.flatMap Token.value ≠ [] := by
  cases l with
  | nil => exact absurd rfl hne
  | cons tok l =>
    cases tok with
    | quoted str => exact absurd h.1 (by decide)
    | opening | closing | openSquare | closeSquare => exact List.cons_ne_nil _ _
    | byte c => exact List.cons_ne_nil _ _

lemma not_nil_of_hasBracket (h : HasBracket v) : ¬ caseEq v (bytes "NIL") := by
  intro hnil
  have hmap : v.map tolower = (bytes "NIL").map tolower := by simpa [caseEq] using hnil
  rcases h with h | h
  · exact absurd (hmap ▸ List.mem_map_of_mem h) (by decide)
  · exact absurd (hmap ▸ List.mem_map_of_mem h) (by decide)

lemma literal_header {str t : List UInt8} (hlen : str.length < 2 ^ 31) (s : Scan) :
    literal s (decimal str.length ++ 0x7D :: (str ++ 0x20 :: t)) =
      .next { s with front := s.front ++ str, rest := 0x20 :: t } := by
  have hdigits : ∀ c ∈ decimal str.length, decide (c ≠ 0x7D) = true := by
    intro c hc
    have := isdigit_of_mem_decimal hc
    refine decide_eq_true ?_
    rintro rfl
    exact absurd this (by decide)
  have htake : (decimal str.length ++ 0x7D :: (str ++ 0x20 :: t)).takeWhile (· ≠ 0x7D) =
      decimal str.length := by
    rw [List.takeWhile_append_of_pos hdigits]
    simp
  have hshort : (decimal str.length).length < 16 := by
    rw [decimal, List.length_map]
    refine Nat.lt_of_le_of_lt ((Nat.length_toDigits_le_iff (by decide) (by decide)).mpr ?_)
      (by decide : 10 < 16)
    omega
  have hatoi : atoi (decimal str.length) = str.length := by
    have hformat : formatInt str.length = decimal str.length := by
      rw [formatInt, if_neg (by omega), Int.natAbs_natCast]
    rw [← hformat]
    exact atoi_formatInt (Int.natCast_nonneg _) (by omega)
  have hdrop : (decimal str.length ++ 0x7D :: (str ++ 0x20 :: t)).drop
      ((decimal str.length).length + 1) = str ++ 0x20 :: t := by
    rw [List.drop_append, List.drop_eq_nil_of_le (Nat.le_succ _)]
    simp
  rw [literal, htake, if_pos hshort, if_pos (by simp), hdrop, hatoi, move, if_pos (by omega),
    if_pos (by simp)]
  simp

/-- An argument is read, with `argv` as the code leaves it. -/
lemma reaches_arg {arg : Arg} {t : List UInt8} (h : Fresh front s) (harg : arg.Ok)
    (hrest : s.rest = arg.text ++ 0x20 :: t) (hargs : s.argv.length < argmax - 1) :
    ∃ s' v e, Reaches argmax s s' ∧ Fresh (front ++ v ++ [0]) s' ∧ s'.rest = t ∧
      s'.argv = s.argv ++ [e] ∧ ∀ behind, argument (front ++ v ++ 0 :: behind) e = arg.value := by
  have hfront : s.front = front := by rw [h.front_eq, List.append_nil]
  have hbracket : s.lastBracket = false := by simpa using h.bracket.1
  have hsquare : s.lastSquare = false := by simpa using h.square.1
  cases arg with
  | bare l =>
    obtain ⟨s₁, hreach, hwithin, hrest₁, hargv₁⟩ := read_tokens h harg.2 hrest hargs
    rw [List.nil_append] at hwithin
    have hnul := not_mem_value harg.2
    obtain ⟨s₂, hreach₂, hfresh, hrest₂, hargv₂⟩ := reaches_space hwithin.front_eq hwithin.lastSpace
      hwithin.lastQuota (by simpa using hwithin.bracket.1) (by simpa using hwithin.square.1)
      (Or.inl (value_ne_nil harg.1 harg.2)) hnul hrest₁ (by rwa [hargv₁])
    refine ⟨s₂, _, _, hreach.trans hreach₂, hfresh, hrest₂, by rw [hargv₂, hargv₁], fun behind => ?_⟩
    rw [argument_entry hnul, Arg.value]
    cases hq : s₁.isQuoted with
    | false => simp
    | true =>
      rw [if_neg (by simp), if_neg (not_nil_of_hasBracket (hwithin.isQuoted hq))]
  | quoted str =>
    have hreach := reaches_quoted h.lastQuota
      (fun x hx => ⟨(harg x hx).2, by simp [hbracket], by simp [hsquare]⟩)
      (show s.rest = 0x22 :: str ++ 0x22 :: 0x20 :: t by rw [hrest]; simp [Arg.text]) (by decide)
      (by decide) hargs
    have hnul : 0 ∉ str := fun h => (harg 0 h).1 rfl
    obtain ⟨s₂, hreach₂, hfresh, hrest₂, hargv₂⟩ := reaches_space
      (s := { s with front := s.front ++ str, rest := 0x20 :: t, lastQuota := false, isQuoted := true })
      (by rw [hfront]) h.lastSpace rfl hbracket hsquare (Or.inr rfl) hnul rfl hargs
    refine ⟨s₂, _, _, hreach.trans hreach₂, hfresh, hrest₂, hargv₂, fun behind => ?_⟩
    rw [argument_entry hnul]
    exact if_neg (by simp)
  | literal str =>
    obtain ⟨hne, hnul, hlen, hnil⟩ := harg
    have hrest' : s.rest = 0x7B :: (decimal str.length ++ 0x7D :: (str ++ 0x20 :: t)) := by
      rw [hrest]
      simp [Arg.text]
    have hturn : turn s = turn { s with front := s.front ++ str, rest := 0x20 :: t } := by
      rw [turn, hrest']
      dsimp only
      rw [if_pos ⟨rfl, by simp [h.lastQuota]⟩, literal_header hlen]
      rfl
    have hreach := reaches_of_eq hturn (by simp [hrest']) (by simp) hargs rfl (by simp [hrest']; omega)
    obtain ⟨s₂, hreach₂, hfresh, hrest₂, hargv₂⟩ := reaches_space
      (s := { s with front := s.front ++ str, rest := 0x20 :: t })
      (by rw [hfront]) h.lastSpace h.lastQuota hbracket hsquare (Or.inl hne) hnul rfl hargs
    refine ⟨s₂, _, _, hreach.trans hreach₂, hfresh, hrest₂, hargv₂, fun behind => ?_⟩
    rw [argument_entry hnul]
    exact if_neg fun hand => hnil hand.2

lemma loop_stop {fuel : ℕ} (h : Fresh front s) (hfuel : 0 < fuel)
    (hend : ¬ (s.rest ≠ [] ∧ s.argv.length < argmax - 1)) :
    loop argmax fuel s = some (some (s.argv, front ++ s.rest)) := by
  obtain ⟨fuel, rfl⟩ := Nat.exists_eq_succ_of_ne_zero (Nat.ne_of_gt hfuel)
  have hfront : s.front = front := by rw [h.front_eq, List.append_nil]
  have hbracket : s.lastBracket = false := by simpa using h.bracket.1
  have hsquare : s.lastSquare = false := by simpa using h.square.1
  rw [loop, if_neg hend, if_neg (by simp [h.lastQuota, hbracket, hsquare]), hfront]

/-- **The arguments** are read one after the other, as far as there is room. -/
lemma loop_args {args : List Arg} (hok : ∀ arg ∈ args, arg.Ok) {vals : List (List UInt8)}
    {fuel : ℕ} (h : Fresh front s) (hrest : s.rest = args.flatMap fun arg => arg.text ++ [0x20])
    (hle : s.argv.length ≤ argmax - 1)
    (hvals : ∀ behind, s.argv.map (argument (front ++ behind)) = vals) (hfuel : s.rest.length < fuel) :
    ∃ argv line, loop argmax fuel s = some (some (argv, line)) ∧
      argv.map (argument line) = (vals ++ args.map Arg.value).take (argmax - 1) := by
  induction args generalizing front s vals fuel with
  | nil =>
    have hlen := congrArg List.length (hvals [])
    rw [List.length_map] at hlen
    refine ⟨_, _, loop_stop h (Nat.zero_lt_of_lt hfuel) (fun h => h.1 hrest), ?_⟩
    rw [hvals, List.map_nil, List.append_nil, List.take_of_length_le (by omega)]
  | cons arg args ih =>
    by_cases hargs : s.argv.length < argmax - 1
    · rw [List.forall_mem_cons] at hok
      rw [List.flatMap_cons, List.append_assoc] at hrest
      obtain ⟨s', v, e, ⟨k, hk, hrun⟩, hfresh, hrest', hargv, hvalue⟩ :=
        reaches_arg h hok.1 hrest hargs
      obtain ⟨f, rfl⟩ : ∃ f, fuel = f + k := ⟨fuel - k, by omega⟩
      have hvals' : ∀ behind, s'.argv.map (argument (front ++ v ++ [0] ++ behind)) =
          vals ++ [arg.value] := by
        intro behind
        rw [hargv, List.map_append, List.append_assoc, List.append_assoc, hvals]
        have := hvalue behind
        rw [List.append_assoc] at this
        simpa using this
      have hle' : s'.argv.length ≤ argmax - 1 := by
        rw [hargv, List.length_append, List.length_singleton]
        omega
      obtain ⟨argv, line, hloop, hmap⟩ := ih hok.2 hfresh hrest' hle' hvals' (show _ < f by omega)
      refine ⟨argv, line, by rw [hrun, hloop], ?_⟩
      rw [hmap, List.append_assoc]
      rfl
    · have hlen := congrArg List.length (hvals [])
      rw [List.length_map] at hlen
      refine ⟨_, _, loop_stop h (Nat.zero_lt_of_lt hfuel) (fun h => hargs h.2), ?_⟩
      rw [hvals, List.take_append_of_le_length (by omega), List.take_of_length_le (by omega)]

lemma commandLine_append_space {args : List Arg} (hne : args ≠ []) :
    commandLine args ++ [0x20] = args.flatMap fun arg => arg.text ++ [0x20] := by
  rw [commandLine]
  induction args with
  | nil => exact absurd rfl hne
  | cons arg args ih =>
    cases args with
    | nil => simp
    | cons arg' args =>
      rw [List.flatMap_cons, ← ih (List.cons_ne_nil _ _)]
      simp [List.intercalate]

/-- The state in which the loop begins. -/
def start (cmdline : List UInt8) : Scan :=
  ⟨[], cmdline ++ [0x20], [], 0, false, false, false, 0, 0, false⟩

lemma fresh_start (cmdline : List UInt8) : Fresh [] (start cmdline) :=
  ⟨rfl, rfl, rfl, ⟨rfl, by simp⟩, ⟨rfl, by simp⟩, by simp, by simp [start]⟩

lemma parse_commandLine {args : List Arg} (hok : ∀ arg ∈ args, arg.Ok) (argmax : ℕ) :
    ∃ argv line, parseImapArgs (commandLine args) argmax = some (some (argv, line)) ∧
      argv.map (argument line) = (args.map Arg.value).take (argmax - 1) := by
  have hfuel : (start (commandLine args)).rest.length < ((commandLine args).length + 2) ^ 2 := by
    simp only [start, List.length_append, List.length_singleton]
    nlinarith
  by_cases hne : args = []
  · subst hne
    have hturn : turn (start []) = .next ⟨[0x20], [], [], 1, false, false, false, 0, 0, false⟩ := rfl
    refine ⟨[], [0x20], ?_, by simp⟩
    change loop argmax 4 (start []) = _
    by_cases h : 0 < argmax - 1
    · rw [loop, if_pos ⟨List.cons_ne_nil _ _, h⟩, hturn]
      rfl
    · rw [loop, if_neg fun hand => h hand.2]
      rfl
  · exact loop_args hok (fresh_start _) (commandLine_append_space hne) (Nat.zero_le _)
      (fun _ => rfl) hfuel

/-! ### Staying in the line -/

/-- The states of a run. -/
inductive Reached (argmax : ℕ) (cmdline : List UInt8) : Scan → Prop
  | start : Reached argmax cmdline (start cmdline)
  | turn {s s' : Scan} : Reached argmax cmdline s → s.rest ≠ [] → s.argv.length < argmax - 1 →
    turn s = .next s' → Reached argmax cmdline s'

/-- Where a literal is met, it is closed in the line, and ends in it. -/
def Closed (argmax : ℕ) (cmdline : List UInt8) : Prop :=
  ∀ s, Reached argmax cmdline s → ∀ t, s.rest = 0x7B :: t → s.lastQuota = false →
    literal s t ≠ .outside

lemma squares_eq (c : UInt8) (s : Scan) : (squares c s).front = s.front ∧
    (squares c s).argv = s.argv := by
  unfold squares
  split
  · split <;> exact ⟨rfl, rfl⟩
  · split
    · split <;> exact ⟨rfl, rfl⟩
    · exact ⟨rfl, rfl⟩

lemma brackets_eq (c : UInt8) (s : Scan) : (brackets c s).front = s.front ∧
    (brackets c s).argv = s.argv := by
  unfold brackets
  split
  · split <;> exact ⟨rfl, rfl⟩
  · split
    · split <;> exact ⟨rfl, rfl⟩
    · exact ⟨rfl, rfl⟩

lemma space_spec (s : Scan) (t : List UInt8) : (space s t).rest = t ∧
    (space s t).front.length = s.front.length + 1 ∧ (space s t).argv.length ≤ s.argv.length + 1 := by
  unfold space
  split
  · simp
  · simp

lemma char_spec {c : UInt8} {t : List UInt8} (hrest : s.rest = c :: t) :
    ∃ s', char s = .next s' ∧ s'.rest = t ∧ s'.front.length = s.front.length + 1 ∧
      s'.argv.length ≤ s.argv.length + 1 := by
  obtain ⟨hfront, hargv⟩ := brackets_eq c (squares c s)
  rw [(squares_eq c s).1] at hfront
  rw [(squares_eq c s).2] at hargv
  rw [char, hrest]
  dsimp only
  split
  · refine ⟨_, rfl, ?_⟩
    obtain ⟨h1, h2, h3⟩ := space_spec (brackets c (squares c s)) t
    rw [hfront] at h2
    rw [hargv] at h3
    exact ⟨h1, h2, h3⟩
  · exact ⟨_, rfl, rfl, by simp [hfront], by simp [hargv]⟩

/-- The line ends with the space that was put there. -/
def Ends (s : Scan) : Prop := s.rest.getLast? = some 0x20

/-- A turn that is not at a literal leaves the line where a closing quotation mark is the last character,
or reads some of the line. -/
lemma quota_cases (s : Scan) : (quota s = .outside ∧ (s.rest = [] ∨ s.rest = [0x22])) ∨
    ∃ s', quota s = .next s' ∧ (∃ l, s.rest = l ++ s'.rest) ∧ s'.rest.length < s.rest.length ∧
      s'.front.length + s'.rest.length ≤ s.front.length + s.rest.length ∧
      s'.argv.length ≤ s.argv.length + 1 := by
  cases hrest : s.rest with
  | nil =>
    rw [quota, hrest]
    exact Or.inl ⟨rfl, Or.inl rfl⟩
  | cons c t =>
    rw [quota, hrest]
    dsimp only
    split
    · subst ‹c = 0x22›
      split
      · cases t with
        | nil => exact Or.inl ⟨rfl, Or.inr rfl⟩
        | cons d t =>
          obtain ⟨s', hchar, hrest', hfront, hargv⟩ :=
            char_spec (s := { s with rest := d :: t, lastQuota := false }) rfl
          refine Or.inr ⟨s', hchar, ⟨[0x22, d], by rw [hrest']; rfl⟩, by simp [hrest'], ?_, hargv⟩
          simp [hrest', hfront]
          omega
      · exact Or.inr ⟨_, rfl, ⟨[0x22], rfl⟩, by simp, by simp, by simp⟩
    · obtain ⟨s', hchar, hrest', hfront, hargv⟩ := char_spec hrest
      refine Or.inr ⟨s', hchar, ⟨[c], by rw [hrest']; rfl⟩, by simp [hrest'], ?_, hargv⟩
      simp [hrest', hfront]
      omega

/-- A turn that is not at a literal. -/
lemma quota_spec (h : Ends s) : ∃ s', quota s = .next s' ∧ (s'.rest = [] ∨ Ends s') ∧
    s'.rest.length < s.rest.length ∧
    s'.front.length + s'.rest.length ≤ s.front.length + s.rest.length := by
  rw [Ends] at h
  rcases quota_cases s with ⟨-, hrest | hrest⟩ | ⟨s', hquota, ⟨l, hl⟩, hlt, hle, -⟩
  · rw [hrest] at h
    cases h
  · rw [hrest] at h
    exact absurd h (by decide)
  · refine ⟨s', hquota, ?_, hlt, hle⟩
    rw [hl] at h
    cases hrest' : s'.rest with
    | nil => exact Or.inl rfl
    | cons d t =>
      rw [List.getLast?_append_of_ne_nil _ (by simp [hrest'])] at h
      exact Or.inr h

/-- The digits of a literal that is closed, and the text behind it. -/
lemma exists_closed {t : List UInt8}
    (h : (t.takeWhile (· ≠ 0x7D)).length < t.length) :
    ∃ text, t = t.takeWhile (· ≠ 0x7D) ++ 0x7D :: text := by
  have hsplit : t.takeWhile (· ≠ 0x7D) ++ t.dropWhile (· ≠ 0x7D) = t := List.takeWhile_append_dropWhile
  have hhead := List.head?_dropWhile_not (fun c : UInt8 => decide (c ≠ 0x7D)) t
  cases hdrop : t.dropWhile (· ≠ 0x7D) with
  | nil =>
    rw [hdrop, List.append_nil] at hsplit
    rw [hsplit] at h
    omega
  | cons c text =>
    rw [hdrop] at hhead hsplit
    have hc : c = 0x7D := by simpa using hhead
    rw [hc] at hsplit
    exact ⟨text, hsplit.symm⟩

/-- A literal makes the line shorter. -/
lemma literal_spec {t : List UInt8} (hrest : s.rest = 0x7B :: t) (h : Ends s) :
    literal s t = .fail ∨ literal s t = .outside ∨ ∃ s', literal s t = .next s' ∧ Ends s' ∧
      s'.front.length + s'.rest.length + 2 ≤ s.front.length + s.rest.length := by
  rw [literal]
  split
  · split
    · obtain ⟨text, ht⟩ := exists_closed ‹_ < t.length›
      have hbehind : ∀ d : List UInt8, t = d ++ 0x7D :: text → t.drop (d.length + 1) = text := by
        rintro d rfl
        simp
      have hdrop := hbehind _ ht
      have hlast : text ≠ [] ∧ text.getLast? = some 0x20 := by
        rw [Ends, hrest, ht, ← List.cons_append, List.getLast?_append] at h
        cases text with
        | nil => exact absurd h (by simp)
        | cons c text => exact ⟨List.cons_ne_nil _ _, by simpa using h⟩
      have hlen : text.length + 2 ≤ s.rest.length := by
        rw [hrest, ht]
        simp
      rw [hdrop, move]
      split
      · split
        · refine Or.inr (Or.inr ⟨_, rfl, ?_, by simp; omega⟩)
          rw [Ends, List.getLast?_drop, if_neg (by omega), hlast.2]
        · exact Or.inr (Or.inl rfl)
      · split
        · refine Or.inr (Or.inr ⟨_, rfl, ?_, by simp; omega⟩)
          rw [Ends, List.getLast?_append_of_ne_nil _ hlast.1, hlast.2]
        · exact Or.inr (Or.inl rfl)
    · exact Or.inr (Or.inl rfl)
  · exact Or.inl rfl

lemma turn_spec (h : Ends s) (hclosed : ∀ t, s.rest = 0x7B :: t → s.lastQuota = false →
    literal s t ≠ .outside) : turn s = .fail ∨ ∃ s', turn s = .next s' ∧ (s'.rest = [] ∨ Ends s') ∧
      (s'.front.length + s'.rest.length) ^ 2 + s'.rest.length <
        (s.front.length + s.rest.length) ^ 2 + s.rest.length := by
  cases hrest : s.rest with
  | nil =>
    rw [Ends, hrest] at h
    cases h
  | cons c t =>
    rw [← hrest, turn, hrest]
    dsimp only
    split
    · obtain ⟨rfl, hquota⟩ := ‹_ ∧ _›
      have hnot := hclosed t hrest (by simpa using hquota)
      rcases literal_spec hrest h with hfail | hout | ⟨s₁, hnext, hends, hlen⟩
      · rw [hfail]
        exact Or.inl rfl
      · exact absurd hout hnot
      · obtain ⟨s', hturn, hends', hlt, hle⟩ := quota_spec hends
        rw [hnext]
        refine Or.inr ⟨s', hturn, hends', ?_⟩
        rw [← hrest]
        have hpow : (s'.front.length + s'.rest.length) ^ 2 ≤
            (s.front.length + s.rest.length - 2) ^ 2 := Nat.pow_le_pow_left (by omega) 2
        obtain ⟨n, hn⟩ : ∃ n, s.front.length + s.rest.length = n + 2 :=
          ⟨s.front.length + s.rest.length - 2, by omega⟩
        rw [hn] at hpow hlen ⊢
        rw [Nat.add_sub_cancel] at hpow
        have : (n + 2) ^ 2 = n ^ 2 + 4 * n + 4 := by ring
        omega
    · obtain ⟨s', hturn, hends', hlt, hle⟩ := quota_spec h
      refine Or.inr ⟨s', hturn, hends', ?_⟩
      rw [← hrest]
      have hpow := Nat.pow_le_pow_left hle 2
      omega

/-- **A run stays in the line** where its literals do. -/
lemma loop_isSome {cmdline : List UInt8} (hclosed : Closed argmax cmdline) {fuel : ℕ}
    (hs : Reached argmax cmdline s) (h : s.rest = [] ∨ Ends s)
    (hfuel : (s.front.length + s.rest.length) ^ 2 + s.rest.length < fuel) :
    (loop argmax fuel s).isSome := by
  induction fuel generalizing s with
  | zero => omega
  | succ fuel ih =>
    rw [loop]
    split
    · have hends : Ends s := h.resolve_left ‹_ ∧ _›.1
      rcases turn_spec hends (hclosed s hs) with hturn | ⟨s', hturn, hends', hlt⟩
      · rw [hturn]
        rfl
      · rw [hturn]
        exact ih (.turn hs ‹_ ∧ _›.1 ‹_ ∧ _›.2 hturn) hends' (by omega)
    · split
      · rfl
      · rfl

lemma length_argv_of_quota {s s' : Scan} (h : quota s = .next s') :
    s'.argv.length ≤ s.argv.length + 1 := by
  rcases quota_cases s with ⟨hquota, -⟩ | ⟨s₁, hquota, -, -, -, hargv⟩
  · cases hquota.symm.trans h
  · obtain rfl := Turn.next.inj (hquota.symm.trans h)
    exact hargv

lemma argv_of_literal {s s' : Scan} {t : List UInt8} (h : literal s t = .next s') :
    s'.argv = s.argv := by
  rw [literal] at h
  split at h
  · split at h
    · rw [move] at h
      split at h
      · split at h
        · obtain rfl := Turn.next.inj h
          rfl
        · cases h
      · split at h
        · obtain rfl := Turn.next.inj h
          rfl
        · cases h
    · cases h
  · cases h

lemma length_argv_of_turn {s s' : Scan} (h : turn s = .next s') :
    s'.argv.length ≤ s.argv.length + 1 := by
  cases hrest : s.rest with
  | nil =>
    rw [turn, hrest] at h
    cases h
  | cons c t =>
    rw [turn, hrest] at h
    dsimp only at h
    split at h
    · cases hl : literal s t with
      | fail =>
        rw [hl] at h
        cases h
      | outside =>
        rw [hl] at h
        cases h
      | next s₁ =>
        rw [hl] at h
        rw [← argv_of_literal hl]
        exact length_argv_of_quota h
    · exact length_argv_of_quota h

lemma length_argv {fuel : ℕ} {argv : List (Option ℕ)} {line : List UInt8}
    (hs : s.argv.length ≤ argmax - 1) (h : loop argmax fuel s = some (some (argv, line))) :
    argv.length ≤ argmax - 1 := by
  induction fuel generalizing s with
  | zero => cases h
  | succ fuel ih =>
    rw [loop] at h
    split at h
    · cases hturn : turn s with
      | fail =>
        rw [hturn] at h
        cases h
      | outside =>
        rw [hturn] at h
        cases h
      | next s' =>
        rw [hturn] at h
        have hle := length_argv_of_turn hturn
        have hlt := ‹_ ∧ _›.2
        exact ih (by omega) h
    · split at h
      · cases h
      · obtain ⟨rfl, -⟩ := Prod.mk.inj (Option.some.inj (Option.some.inj h))
        exact hs

/-- **Command lines** give their arguments, as many as there is room for; every line whose literals are
closed in it is read without leaving it, and no more than `argmax - 1` arguments are returned. -/
theorem parse_imap_args_spec :
    (∀ (args : List Arg) (argmax : ℕ), (∀ arg ∈ args, arg.Ok) → ∃ argv line,
      parseImapArgs (commandLine args) argmax = some (some (argv, line)) ∧
        argv.map (argument line) = (args.map Arg.value).take (argmax - 1)) ∧
    (∀ (cmdline : List UInt8) (argmax : ℕ), Closed argmax cmdline →
      (parseImapArgs cmdline argmax).isSome) ∧
    ∀ (cmdline : List UInt8) (argmax : ℕ) (argv : List (Option ℕ)) (line : List UInt8),
      parseImapArgs cmdline argmax = some (some (argv, line)) → argv.length ≤ argmax - 1 := by
  refine ⟨fun args argmax hok => parse_commandLine hok argmax, fun cmdline argmax hclosed => ?_,
    fun cmdline argmax argv line h => length_argv (Nat.zero_le _) h⟩
  refine loop_isSome hclosed .start (Or.inr (List.getLast?_concat)) ?_
  simp only [List.length_append, List.length_singleton, List.length_nil]
  nlinarith

/-- An escaped quotation mark ends the string, and an empty literal is no argument. -/
theorem parse_imap_args_lost :
    (parseImapArgs (bytes "a \"b\\\"c\"") 10).map (Option.map fun r => r.1.map (argument r.2)) =
      some none ∧
    (parseImapArgs (bytes "a {0} b") 10).map (Option.map fun r => r.1.map (argument r.2)) =
      some (some [bytes "a", bytes "b"]) ∧
    parseImapArgs (bytes "a {9}b") 10 = none := by
  decide +kernel

end SteepSystem.Imap.Arguments
