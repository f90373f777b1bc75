import SteepSystem.Lib.CStrings
import SteepSystem.Lib.Outputs

/-!
`qp_encode_ex` and `qp_decode` (`LIBRARY/common/util.c`): the quoted-printable encoding, with lines
of at most 76 bytes, and its decoder.
-/

namespace SteepSystem.Texts.QuotedPrintable

open SteepSystem.Lib.CStrings SteepSystem.Lib.Outputs

def maxLine : ℕ := 76

def hextab (n : ℕ) : UInt8 := UInt8.ofNat (if n < 10 then 0x30 + n else 0x41 + (n - 10))

/-- `"=XY"` -/
def quoted (ch : UInt8) : List UInt8 := [0x3D, hextab (ch.toNat / 16), hextab (ch.toNat % 16)]

/-- The first byte of the input, what is behind it, the output, and the length of its line. -/
structure Encoder where
  input : List UInt8
  out : List UInt8
  linelen : ℕ

/-- `inpos < length - 1` and a line break at `inpos`. -/
def crlfAhead (input : List UInt8) : Option Bool :=
  both (some (1 < input.length)) (both (reads input 0 (· = 0x0D)) (reads input 1 (· = 0x0A)))

def fromAhead (linelen : ℕ) (ch : UInt8) (input : List UInt8) : Option Bool :=
  both (some (linelen = 0 ∧ 3 < input.length ∧ ch = 0x46)) (both (reads input 0 (· = 0x72))
    (both (reads input 1 (· = 0x6F)) (both (reads input 2 (· = 0x6D)) (reads input 3 (· = 0x20)))))

def printable (ch : UInt8) : Bool := (62 ≤ ch && ch ≤ 126) || (33 ≤ ch && ch ≤ 60)

/-- What a turn writes for the byte `ch` with `input` behind it, what is added to the length of the
line (a hard line break starts a new one), and how many bytes more are taken. -/
def encodeByte (linelen : ℕ) (ch : UInt8) (input : List UInt8) :
    Option (List UInt8 × ℕ × ℕ) :=
  if linelen = 0 ∧ ch = 0x2E then some (quoted ch, linelen + 3, 0)
  else (fromAhead linelen ch input).bind fun from_ =>
    if from_ then some (quoted ch, linelen + 3, 0)
    else if printable ch then some ([ch], linelen + 1, 0)
    else if ch = 0x20 then
      (if input = [] then some true else crlfAhead input).map fun atEnd =>
        if atEnd then ([0x3D, 0x32, 0x30], linelen + 3, 0) else ([0x20], linelen + 1, 0)
    else (both (some (0 < input.length ∧ ch = 0x0D)) (reads input 0 (· = 0x0A))).map fun hard =>
      if hard then ([0x0D, 0x0A], 0, 1)
      else if ch &&& 0x80 ≠ 0 ∨ ch &&& 0xE0 = 0 ∨ ch = 0x7F ∨ ch = 0x3D then
        (quoted ch, linelen + 3, 0)
      else ([], linelen, 0)

def encodeTurn (outlen : ℕ) (ch : UInt8) (input out : List UInt8) (linelen : ℕ) : Option Encoder :=
  (encodeByte linelen ch input).bind fun (text, linelen, taken) =>
    (put outlen out text).bind fun out =>
      (both (some (maxLine - 3 ≤ linelen)) ((crlfAhead (input.drop taken)).map not)).bind fun soft =>
        if soft then (put outlen out [0x3D, 0x0D, 0x0A]).map fun out => ⟨input.drop taken, out, 0⟩
        else some ⟨input.drop taken, out, linelen⟩

/-- The loop; `none` where it reads behind the input or writes behind the output. -/
def encodeLoop (outlen : ℕ) : ℕ → Encoder → Option Encoder
  | 0, s => some s
  | fuel + 1, s =>
    match s.input with
    | [] => some s
    | ch :: input => (encodeTurn outlen ch input s.out s.linelen).bind (encodeLoop outlen fuel)

/-- The text in front of the terminating NUL. The length of the output is that of the buffer; the
code does not look at it. -/
def qpEncodeEx (outlen : ℕ) (input : List UInt8) : Option (List UInt8) :=
  (encodeLoop outlen input.length ⟨input, [], 0⟩).bind fun s =>
    (put outlen s.out [0]).map fun _ => s.out

def isxdigit (c : UInt8) : Bool :=
  (0x30 ≤ c && c ≤ 0x39) || (0x41 ≤ c && c ≤ 0x46) || (0x61 ≤ c && c ≤ 0x66)

def hexTab (c : UInt8) : UInt8 :=
  if 0x30 ≤ c ∧ c ≤ 0x39 then c - 0x30
  else if 0x41 ≤ c ∧ c ≤ 0x46 then c - 0x41 + 10
  else if 0x61 ≤ c ∧ c ≤ 0x66 then c - 0x61 + 10
  else 0x10

/-- A difference of two `size_t`. -/
def sizeSub (a b : ℕ) : ℕ := if b ≤ a then a - b else 2 ^ 64 + a - b

/-- One turn at the byte `c` of an input of `length` bytes with `input` behind it. -/
def decodeTurn (cap length : ℕ) (c : UInt8) (input out : List UInt8) :
    Option (List UInt8 × List UInt8) :=
  let inside := decide (length - (input.length + 1) < sizeSub length 2)
  if c = 0x3D then
    (both (some inside) (both (reads input 0 isxdigit) (reads input 1 isxdigit))).bind fun hex =>
      if hex then
        (put cap out [hexTab (input.getD 0 0) <<< 4 ||| hexTab (input.getD 1 0)]).map fun out =>
          (input.drop 2, out)
      else (both (some inside) (both (reads input 0 (· = 0x0D)) (reads input 1 (· = 0x0A)))).map
        fun soft => if soft then (input.drop 2, out) else (input, out)
  else (put cap out [c]).map fun out => (input, out)

def decodeLoop (cap length : ℕ) : ℕ → List UInt8 × List UInt8 → Option (List UInt8)
  | _, ([], out) => some out
  | 0, (_ :: _, _) => none
  | fuel + 1, (c :: input, out) =>
    (decodeTurn cap length c input out).bind (decodeLoop cap length fuel)

/-- The text in front of the terminating NUL, in a buffer of `cap` bytes. -/
def qpDecode (cap : ℕ) (input : List UInt8) : Option (List UInt8) :=
  (decodeLoop cap input.length input.length (input, [])).bind fun out =>
    (put cap out [0]).map fun _ => out

/-! ### Tokens -/

/-- What the encoding puts for a byte, for a line break of the input, and at the end of a line that
grows too long. -/
inductive Token
  | plain (b : UInt8)
  | hex (b : UInt8)
  | crlf
  | soft

def Token.text : Token → List UInt8
  | plain b => [b]
  | hex b => quoted b
  | crlf => [0x0D, 0x0A]
  | soft => [0x3D, 0x0D, 0x0A]

def Token.value : Token → List UInt8
  | plain b => [b]
  | hex b => [b]
  | crlf => [0x0D, 0x0A]
  | soft => []

def text (l : List Token) : List UInt8 := l.flatMap Token.text

def startsLine (input : List UInt8) : Bool := input.take 2 = [0x0D, 0x0A]

/-- The bytes that may not stand for themselves: what is not printable, a blank at the end of a line,
a dot and the word `From` at its beginning. -/
def escapes (linelen : ℕ) (b : UInt8) (rest : List UInt8) : Bool :=
  (linelen = 0 && (b = 0x2E || (b = 0x46 && rest.take 4 = [0x72, 0x6F, 0x6D, 0x20]))) ||
    (b = 0x20 && (rest.isEmpty || startsLine rest)) || !(printable b || b = 0x20)

/-- The token of a byte that does not begin a line break. -/
def byteToken (linelen : ℕ) (ch : UInt8) (input : List UInt8) : Token :=
  if escapes linelen ch input then .hex ch else .plain ch

def quote (linelen : ℕ) : List UInt8 → List Token
  | [] => []
  | b :: rest =>
    if b = 0x0D ∧ rest.head? = some 0x0A then .crlf :: quote 0 rest.tail
    else
      if maxLine - 3 ≤ linelen + (byteToken linelen b rest).text.length ∧ ¬ startsLine rest then
        byteToken linelen b rest :: .soft :: quote 0 rest
      else byteToken linelen b rest :: quote (linelen + (byteToken linelen b rest).text.length) rest
termination_by input => input.length
decreasing_by all_goals simp

lemma escaped_class (b : UInt8) : (printable b || b = 0x20) = true ∨ b &&& 0x80 ≠ 0 ∨
    b &&& 0xE0 = 0 ∨ b = 0x7F ∨ b = 0x3D := by
  revert b
  refine forall_uint8 ?_
  decide +kernel

lemma crlfAhead_eq (input : List UInt8) : crlfAhead input = some (startsLine input) := by
  match input with
  | [] => rfl
  | [a] => simp [crlfAhead, startsLine]
  | a :: b :: rest => simp [crlfAhead, startsLine, reads]

lemma fromAhead_eq (linelen : ℕ) (ch : UInt8) (input : List UInt8) :
    fromAhead linelen ch input =
      some (linelen = 0 && (ch = 0x46 && input.take 4 = [0x72, 0x6F, 0x6D, 0x20])) := by
  match input with
  | [] | [_] | [_, _] | [_, _, _] => simp [fromAhead]
  | a :: b :: c :: d :: rest => simp [fromAhead, reads, Bool.and_assoc]

lemma hardAhead_eq (ch : UInt8) (input : List UInt8) :
    both (some (0 < input.length ∧ ch = 0x0D)) (reads input 0 (· = 0x0A)) =
      some (decide (ch = 0x0D ∧ input.head? = some 0x0A)) := by
  match input with
  | [] => simp
  | a :: rest => simp [reads]

/-- **One turn** chooses the token. -/
lemma encodeByte_eq (linelen : ℕ) (ch : UInt8) (input : List UInt8) :
    encodeByte linelen ch input = some
      (if ch = 0x0D ∧ input.head? = some 0x0A then ([0x0D, 0x0A], 0, 1)
      else if escapes linelen ch input then (quoted ch, linelen + 3, 0)
      else ([ch], linelen + 1, 0)) := by
  have hcr : ch = 0x0D → printable ch = false ∧ ch ≠ 0x2E ∧ ch ≠ 0x46 ∧ ch ≠ 0x20 := by
    rintro rfl
    decide
  rw [encodeByte, fromAhead_eq, hardAhead_eq, crlfAhead_eq, Option.bind_some, Option.map_some,
    escapes]
  by_cases hdot : linelen = 0 ∧ ch = 0x2E
  · obtain ⟨rfl, rfl⟩ := hdot
    rw [if_pos ⟨rfl, rfl⟩]
    rfl
  rw [if_neg hdot]
  by_cases hfrom : linelen = 0 ∧ ch = 0x46 ∧ input.take 4 = [0x72, 0x6F, 0x6D, 0x20]
  · obtain ⟨rfl, rfl, h⟩ := hfrom
    simp [h]
  have hfrom' : (decide (linelen = 0) && (decide (ch = 0x46) &&
      decide (input.take 4 = [0x72, 0x6F, 0x6D, 0x20]))) = false := by
    simpa [← not_and] using hfrom
  rw [hfrom', if_neg Bool.false_ne_true]
  have hline : (decide (linelen = 0) && (decide (ch = 0x2E) || (decide (ch = 0x46) &&
      decide (input.take 4 = [0x72, 0x6F, 0x6D, 0x20])))) = false := by
    rw [Bool.and_or_distrib_left, hfrom', Bool.or_false]
    simpa using hdot
  rw [hline, Bool.false_or]
  cases hprint : printable ch with
  | true =>
    have hne : ¬ (ch = 0x0D ∧ input.head? = some 0x0A) := fun h => by
      rw [(hcr h.1).1] at hprint
      cases hprint
    have hblank : ch ≠ 0x20 := by
      rintro rfl
      exact absurd hprint (by decide)
    simp [hne, hblank]
  | false =>
    rw [if_neg Bool.false_ne_true]
    by_cases hblank : ch = 0x20
    · subst hblank
      cases input with
      | nil => rfl
      | cons a rest => simp [quoted, hextab]
    · rw [if_neg hblank]
      have hclass := escaped_class ch
      simp only [hprint, hblank, decide_false, Bool.or_false, Bool.false_eq_true, false_or] at hclass
      by_cases hhard : ch = 0x0D ∧ input.head? = some 0x0A
      · simp [hhard]
      · simp [hhard, hblank, hclass]

@[simp] lemma text_nil : text [] = [] := rfl

@[simp] lemma text_cons (t : Token) (l : List Token) : text (t :: l) = t.text ++ text l := rfl

@[simp] lemma length_hex (b : UInt8) : (Token.hex b).text.length = 3 := rfl

section Encoding

variable {outlen linelen fuel : ℕ} {ch : UInt8} {input out : List UInt8}

lemma quote_cons_hard (h : ch = 0x0D ∧ input.head? = some 0x0A) :
    quote linelen (ch :: input) = .crlf :: quote 0 input.tail := by rw [quote, if_pos h]

lemma quote_cons (h : ¬ (ch = 0x0D ∧ input.head? = some 0x0A)) :
    quote linelen (ch :: input) =
      if maxLine - 3 ≤ linelen + (byteToken linelen ch input).text.length ∧ ¬ startsLine input then
        byteToken linelen ch input :: .soft :: quote 0 input
      else byteToken linelen ch input ::
        quote (linelen + (byteToken linelen ch input).text.length) input := by
  rw [quote, if_neg h]

lemma encodeTurn_hard (h : ch = 0x0D ∧ input.head? = some 0x0A) :
    encodeTurn outlen ch input out linelen =
      (put outlen out Token.crlf.text).map fun out => ⟨input.tail, out, 0⟩ := by
  rw [encodeTurn, encodeByte_eq, if_pos h, Option.bind_some]
  dsimp only
  cases hput : put outlen out [0x0D, 0x0A] with
  | none => rw [Token.text, hput]; rfl
  | some out' =>
    have hsoft : decide (maxLine - 3 ≤ 0) = false := rfl
    rw [Token.text, hput, Option.bind_some, hsoft, both_false, List.drop_one]
    rfl

lemma encodeTurn_byte (h : ¬ (ch = 0x0D ∧ input.head? = some 0x0A)) :
    encodeTurn outlen ch input out linelen =
      if maxLine - 3 ≤ linelen + (byteToken linelen ch input).text.length ∧ ¬ startsLine input then
        (put outlen out ((byteToken linelen ch input).text ++ Token.soft.text)).map fun out =>
          ⟨input, out, 0⟩
      else (put outlen out (byteToken linelen ch input).text).map fun out =>
        ⟨input, out, linelen + (byteToken linelen ch input).text.length⟩ := by
  have hbyte : encodeByte linelen ch input = some ((byteToken linelen ch input).text,
      linelen + (byteToken linelen ch input).text.length, 0) := by
    rw [encodeByte_eq, if_neg h, byteToken]
    split <;> rfl
  rw [encodeTurn, hbyte, Option.bind_some]
  dsimp only
  rw [List.drop_zero, crlfAhead_eq, Option.map_some, both_some]
  simp only [Option.bind_some]
  by_cases hsoft : maxLine - 3 ≤ linelen + (byteToken linelen ch input).text.length ∧
      ¬ startsLine input
  · have hb : (decide (maxLine - 3 ≤ linelen + (byteToken linelen ch input).text.length) &&
        !startsLine input) = true := by simpa using hsoft
    rw [if_pos hsoft, hb, ← put_put, Option.map_bind]
    rfl
  · have hb : (decide (maxLine - 3 ≤ linelen + (byteToken linelen ch input).text.length) &&
        !startsLine input) = false := by simpa [not_and] using hsoft
    rw [if_neg hsoft, hb]
    cases put outlen out (byteToken linelen ch input).text <;> rfl

/-- **The loop** writes the tokens of what is left. -/
lemma encodeLoop_eq (hfuel : input.length ≤ fuel) (hout : out.length ≤ outlen) :
    (encodeLoop outlen fuel ⟨input, out, linelen⟩).map Encoder.out =
      put outlen out (text (quote linelen input)) := by
  induction fuel generalizing input out linelen with
  | zero =>
    obtain rfl := List.length_eq_zero_iff.mp (Nat.le_zero.mp hfuel)
    rw [quote, text_nil, put_nil hout]
    rfl
  | succ fuel ih =>
    cases input with
    | nil =>
      rw [quote, text_nil, put_nil hout]
      rfl
    | cons ch input =>
      rw [List.length_cons] at hfuel
      -- what is left after the turn, behind the text that the turn has put
      have hstep {new : List UInt8} {rest : List UInt8} {n : ℕ} (hrest : rest.length ≤ fuel)
          (hturn : encodeTurn outlen ch input out linelen =
            (put outlen out new).map fun out => ⟨rest, out, n⟩) :
          (encodeLoop outlen (fuel + 1) ⟨ch :: input, out, linelen⟩).map Encoder.out =
            put outlen out (new ++ text (quote n rest)) := by
        rw [encodeLoop]
        dsimp only
        rw [hturn, ← put_put]
        by_cases hle : out.length + new.length ≤ outlen
        · rw [put_of_le hle, Option.map_some, Option.bind_some, Option.bind_some]
          exact ih hrest (by rwa [List.length_append])
        · rw [put_eq_none (not_le.mp hle)]
          rfl
      by_cases hhard : ch = 0x0D ∧ input.head? = some 0x0A
      · rw [quote_cons_hard hhard, text_cons]
        refine hstep ?_ (encodeTurn_hard hhard)
        rw [List.length_tail]
        omega
      · rw [quote_cons hhard]
        split
        · rw [text_cons, text_cons, ← List.append_assoc]
          exact hstep (by omega) ((encodeTurn_byte hhard).trans (if_pos ‹_›))
        · rw [text_cons]
          exact hstep (by omega) ((encodeTurn_byte hhard).trans (if_neg ‹_›))

lemma qpEncodeEx_eq (outlen : ℕ) (input : List UInt8) : qpEncodeEx outlen input =
    if (text (quote 0 input)).length < outlen then some (text (quote 0 input)) else none := by
  have hloop : (encodeLoop outlen input.length ⟨input, [], 0⟩).map Encoder.out =
      put outlen [] (text (quote 0 input)) := encodeLoop_eq le_rfl (Nat.zero_le _)
  have hbind : qpEncodeEx outlen input = ((encodeLoop outlen input.length ⟨input, [], 0⟩).map
      Encoder.out).bind fun out => (put outlen out [0]).map fun _ => out := by
    rw [Option.bind_map]
    rfl
  rw [hbind, hloop]
  exact put_terminated outlen _ 0 id

end Encoding

/-! ### Decoding -/

def hexAhead (input : List UInt8) : Bool :=
  2 ≤ input.length && (isxdigit (input.getD 0 0) && isxdigit (input.getD 1 0))

def hexValue (input : List UInt8) : UInt8 := hexTab (input.getD 0 0) <<< 4 ||| hexTab (input.getD 1 0)

/-- The bytes that a text stands for. -/
def unquote : List UInt8 → List UInt8
  | [] => []
  | c :: input =>
    if c = 0x3D then
      if hexAhead input then hexValue input :: unquote (input.drop 2)
      else if startsLine input then unquote (input.drop 2)
      else unquote input
    else c :: unquote input
termination_by input => input.length
decreasing_by
  all_goals first
    | (rw [List.length_drop, List.length_cons]; omega)
    | exact Nat.lt_succ_self _

section Decoding

variable {cap length fuel : ℕ} {c : UInt8} {input out : List UInt8}

lemma unquote_hex (h : hexAhead input) :
    unquote (0x3D :: input) = hexValue input :: unquote (input.drop 2) := by
  rw [unquote, if_pos rfl, if_pos h]

lemma unquote_soft (h : hexAhead input = false) (h' : startsLine input) :
    unquote (0x3D :: input) = unquote (input.drop 2) := by
  rw [unquote, if_pos rfl, h, if_neg Bool.false_ne_true, if_pos h']

lemma unquote_plain (h : c ≠ 0x3D) : unquote (c :: input) = c :: unquote input := by
  rw [unquote, if_neg h]

/-- Both look-aheads of an equals sign, in an input of at least two bytes. -/
lemma lookahead_eq (h : 2 ≤ length) (hlen : input.length + 1 ≤ length) (p q : UInt8 → Bool) :
    both (some (decide (length - (input.length + 1) < sizeSub length 2)))
      (both (reads input 0 p) (reads input 1 q)) =
      some (2 ≤ input.length && (p (input.getD 0 0) && q (input.getD 1 0))) := by
  rw [sizeSub, if_pos h]
  match input, hlen with
  | [], _ =>
    have hout : ¬ length - 1 < length - 2 := by omega
    simp [hout]
  | [a], _ =>
    have hout : ¬ length - (1 + 1) < length - 2 := by omega
    simp
  | a :: b :: rest, hlen =>
    simp only [List.length_cons] at hlen
    have hin : length - (rest.length + 1 + 1 + 1) < length - 2 := by omega
    simp [hin, reads]

lemma startsLine_eq (input : List UInt8) : startsLine input =
    (2 ≤ input.length && (decide (input.getD 0 0 = 0x0D) && decide (input.getD 1 0 = 0x0A))) := by
  match input with
  | [] | [_] => simp [startsLine]
  | a :: b :: rest => simp [startsLine]

lemma decodeTurn_eq (h : 2 ≤ length ∨ c ≠ 0x3D) (hlen : input.length + 1 ≤ length) :
    decodeTurn cap length c input out =
      if c = 0x3D then
        if hexAhead input then (put cap out [hexValue input]).map fun out => (input.drop 2, out)
        else if startsLine input then some (input.drop 2, out) else some (input, out)
      else (put cap out [c]).map fun out => (input, out) := by
  unfold decodeTurn
  by_cases hc : c = 0x3D
  · have h2 : 2 ≤ length := h.resolve_right (not_not.mpr hc)
    dsimp only
    rw [if_pos hc, if_pos hc, lookahead_eq h2 hlen, Option.bind_some, ← hexAhead]
    split
    · rfl
    · rw [lookahead_eq h2 hlen (fun x => x = 0x0D) (fun x => x = 0x0A), ← startsLine_eq,
        Option.map_some]
      split <;> rfl
  · dsimp only
    rw [if_neg hc, if_neg hc]

/-- **The loop** writes the bytes of what is left. -/
lemma decodeLoop_eq (h : 2 ≤ length ∨ 0x3D ∉ input) (hlen : input.length ≤ length)
    (hfuel : input.length ≤ fuel) (hout : out.length ≤ cap) :
    decodeLoop cap length fuel (input, out) = put cap out (unquote input) := by
  induction fuel generalizing input out with
  | zero =>
    obtain rfl := List.length_eq_zero_iff.mp (Nat.le_zero.mp hfuel)
    rw [unquote, put_nil hout]
    rfl
  | succ fuel ih =>
    cases input with
    | nil =>
      rw [unquote, put_nil hout]
      rfl
    | cons c input =>
      rw [List.length_cons] at hlen hfuel
      have hc : 2 ≤ length ∨ c ≠ 0x3D :=
        h.imp_right fun h' => (List.ne_of_not_mem_cons h').symm
      have hrest : 2 ≤ length ∨ 0x3D ∉ input := h.imp_right List.not_mem_of_not_mem_cons
      have hdrop : 2 ≤ length ∨ 0x3D ∉ input.drop 2 :=
        hrest.imp_right fun h' hmem => h' (List.mem_of_mem_drop hmem)
      have hle : (input.drop 2).length ≤ input.length := by
        rw [List.length_drop]
        omega
      have hput {b : UInt8} {rest : List UInt8} (hr : 2 ≤ length ∨ 0x3D ∉ rest)
          (hrlen : rest.length ≤ input.length) :
          ((put cap out [b]).map fun out => (rest, out)).bind (decodeLoop cap length fuel) =
            put cap out (b :: unquote rest) := by
        have hcons : b :: unquote rest = [b] ++ unquote rest := rfl
        rw [Option.bind_map, hcons, ← put_put]
        by_cases hfit : out.length + [b].length ≤ cap
        · rw [put_of_le hfit, Option.bind_some, Option.bind_some]
          exact ih hr (by omega) (by omega) (by rwa [List.length_append])
        · rw [put_eq_none (not_le.mp hfit)]
          rfl
      rw [decodeLoop, decodeTurn_eq hc hlen, unquote]
      split
      · split
        · exact hput hdrop hle
        · split
          · rw [Option.bind_some]
            exact ih hdrop (by omega) (by omega) hout
          · rw [Option.bind_some]
            exact ih hrest (by omega) (by omega) hout
      · exact hput hrest le_rfl

lemma qpDecode_eq (h : input ≠ [0x3D]) : qpDecode cap input =
    if (unquote input).length < cap then some (unquote input) else none := by
  have hok : 2 ≤ input.length ∨ 0x3D ∉ input := by
    match input with
    | [] => exact .inr (by simp)
    | [c] => exact .inr fun hc => h (by rw [List.mem_singleton.mp hc])
    | _ :: _ :: _ => exact .inl (by simp)
  rw [qpDecode, decodeLoop_eq hok le_rfl le_rfl (Nat.zero_le _)]
  exact put_terminated cap _ 0 id

/-- The length less two is a large `size_t` here, and the byte behind the input is looked at. -/
lemma qpDecode_lone (cap : ℕ) : qpDecode cap [0x3D] = none := rfl

/-! ### Both ways -/

lemma hexAhead_quoted : ∀ b : UInt8, isxdigit (hextab (b.toNat / 16)) = true ∧
    isxdigit (hextab (b.toNat % 16)) = true ∧
    hexTab (hextab (b.toNat / 16)) <<< 4 ||| hexTab (hextab (b.toNat % 16)) = b := by
  refine forall_uint8 ?_
  decide +kernel

lemma unquote_token {t : Token} (h : ∀ b, t = .plain b → b ≠ 0x3D) (rest : List UInt8) :
    unquote (t.text ++ rest) = t.value ++ unquote rest := by
  cases t with
  | plain b => exact unquote_plain (h b rfl)
  | hex b =>
    obtain ⟨hhigh, hlow, hval⟩ := hexAhead_quoted b
    rw [Token.text, quoted, List.cons_append, unquote_hex]
    · rw [hexValue]
      exact congrArg₂ List.cons hval rfl
    · simp [hexAhead, hhigh, hlow]
  | crlf =>
    rw [Token.text, List.cons_append, unquote_plain (by decide), List.cons_append,
      unquote_plain (by decide)]
    rfl
  | soft =>
    rw [Token.text, List.cons_append, unquote_soft]
    · rfl
    · simp [hexAhead, isxdigit]
    · simp [startsLine]

end Decoding

lemma byteToken_value (linelen : ℕ) (b : UInt8) (rest : List UInt8) :
    (byteToken linelen b rest).value = [b] := by
  rw [byteToken]
  split <;> rfl

lemma byteToken_length (linelen : ℕ) (b : UInt8) (rest : List UInt8) :
    (byteToken linelen b rest).text.length ≤ 3 := by
  rw [byteToken]
  split
  · rfl
  · simp [Token.text]

/-- A byte that stands for itself is printable or a blank. -/
lemma byteToken_plain {linelen : ℕ} {b c : UInt8} {rest : List UInt8}
    (h : byteToken linelen b rest = .plain c) : c = b ∧ c ≠ 0x3D ∧ c ≠ 0x0D := by
  rw [byteToken] at h
  split at h
  · cases h
  · cases h
    have hclass : (printable b || b = 0x20) = true := by
      have hno : escapes linelen b rest = false := by simpa using ‹¬ escapes linelen b rest = true›
      rw [escapes, Bool.or_eq_false_iff] at hno
      exact (Bool.not_eq_false' _).mp hno.2
    refine ⟨rfl, ?_, ?_⟩
    · rintro rfl
      exact absurd hclass (by decide)
    · rintro rfl
      exact absurd hclass (by decide)

lemma quoted_no_cr (b : UInt8) : 0x0D ∉ quoted b := by
  have hdigit : ∀ b : UInt8, hextab (b.toNat / 16) ≠ 0x0D ∧ hextab (b.toNat % 16) ≠ 0x0D := by
    refine forall_uint8 ?_
    decide +kernel
  simp [quoted, (hdigit b).1.symm, (hdigit b).2.symm]

lemma byteToken_no_cr (linelen : ℕ) {b : UInt8} {rest : List UInt8} :
    0x0D ∉ (byteToken linelen b rest).text := by
  cases h : byteToken linelen b rest with
  | plain c => simpa [Token.text] using (byteToken_plain h).2.2.symm
  | hex c => exact quoted_no_cr c
  | crlf => rw [byteToken] at h; split at h <;> cases h
  | soft => rw [byteToken] at h; split at h <;> cases h

lemma hard_of_startsLine {b : UInt8} {rest : List UInt8} (h : startsLine (b :: rest)) :
    b = 0x0D ∧ rest.head? = some 0x0A := by
  cases rest with
  | nil => simp [startsLine] at h
  | cons c rest => simpa [startsLine] using h

lemma quote_value (linelen : ℕ) (input : List UInt8) :
    (quote linelen input).flatMap Token.value = input := by
  induction linelen, input using quote.induct with
  | case1 linelen => rw [quote]; rfl
  | case2 linelen b rest h ih =>
    obtain ⟨rfl, hhead⟩ := h
    cases rest with
    | nil => cases hhead
    | cons c rest =>
      obtain rfl := Option.some.inj hhead
      rw [quote_cons_hard ⟨rfl, rfl⟩, List.flatMap_cons, ih]
      rfl
  | case3 linelen b rest h hsoft ih =>
    rw [quote_cons h, if_pos hsoft, List.flatMap_cons, List.flatMap_cons, byteToken_value, ih]
    rfl
  | case4 linelen b rest h hsoft ih =>
    rw [quote_cons h, if_neg hsoft, List.flatMap_cons, byteToken_value, ih]
    rfl

lemma quote_plain (linelen : ℕ) (input : List UInt8) :
    ∀ t ∈ quote linelen input, ∀ b, t = .plain b → b ≠ 0x3D := by
  induction linelen, input using quote.induct with
  | case1 linelen => rw [quote]; simp
  | case2 linelen b rest h ih =>
    rw [quote_cons_hard h]
    exact List.forall_mem_cons.mpr ⟨by simp, ih⟩
  | case3 linelen b rest h hsoft ih =>
    rw [quote_cons h, if_pos hsoft]
    refine List.forall_mem_cons.mpr ⟨fun c hc => ?_, List.forall_mem_cons.mpr ⟨by simp, ih⟩⟩
    exact (byteToken_plain hc).2.1
  | case4 linelen b rest h hsoft ih =>
    rw [quote_cons h, if_neg hsoft]
    exact List.forall_mem_cons.mpr ⟨fun c hc => (byteToken_plain hc).2.1, ih⟩

lemma unquote_text {l : List Token} (h : ∀ t ∈ l, ∀ b, t = .plain b → b ≠ 0x3D) :
    unquote (text l) = l.flatMap Token.value := by
  induction l with
  | nil => rw [text_nil, unquote]; rfl
  | cons t l ih =>
    rw [List.forall_mem_cons] at h
    rw [text_cons, unquote_token h.1, ih h.2, List.flatMap_cons]

lemma text_ne_lone {l : List Token} (h : ∀ t ∈ l, ∀ b, t = .plain b → b ≠ 0x3D) :
    text l ≠ [0x3D] := by
  intro htext
  cases l with
  | nil => cases htext
  | cons t l =>
    rw [text_cons] at htext
    cases t with
    | plain b => exact h _ List.mem_cons_self b rfl (List.cons.inj htext).1
    | hex b => cases htext
    | crlf => cases htext
    | soft => cases htext

/-! ### Lines -/

/-- The lines of a text, parted by CRLF. -/
def lines : List UInt8 → List (List UInt8)
  | [] => [[]]
  | b :: rest =>
    if b = 0x0D ∧ rest.head? = some 0x0A then [] :: lines rest.tail
    else (lines rest).modifyHead (b :: ·)
termination_by input => input.length
decreasing_by all_goals simp

/-- No line is too long, when `n` bytes are in front of the first. -/
def Fits (n : ℕ) (s : List UInt8) : Prop :=
  ∃ first more, lines s = first :: more ∧ n + first.length ≤ maxLine ∧
    ∀ line ∈ more, line.length ≤ maxLine

section Lines

variable {n : ℕ} {s t : List UInt8}

lemma fits_nil (h : n ≤ maxLine) : Fits n [] := ⟨[], [], by rw [lines], h, by simp⟩

lemma Fits.crlf (h : Fits 0 s) (hn : n ≤ maxLine) : Fits n (Token.crlf.text ++ s) := by
  obtain ⟨first, more, hlines, hfirst, hmore⟩ := h
  have hbreak : lines (Token.crlf.text ++ s) = [] :: first :: more := by
    rw [Token.text, List.cons_append, lines, if_pos ⟨rfl, rfl⟩, ← hlines]
    rfl
  refine ⟨[], first :: more, hbreak, hn, List.forall_mem_cons.mpr ⟨by simpa using hfirst, hmore⟩⟩

lemma Fits.append (h : Fits (n + s.length) t) (hs : 0x0D ∉ s) : Fits n (s ++ t) := by
  induction s generalizing n with
  | nil => exact h
  | cons b s ih =>
    rw [List.mem_cons, not_or] at hs
    have hlen : n + (b :: s).length = n + 1 + s.length := by
      rw [List.length_cons]
      omega
    rw [hlen] at h
    obtain ⟨first, more, hlines, hfirst, hmore⟩ := ih h hs.2
    refine ⟨b :: first, more, ?_, ?_, hmore⟩
    · rw [List.cons_append, lines, if_neg fun hb => hs.1 hb.1.symm, hlines]
      rfl
    · rw [List.length_cons]
      omega

lemma Fits.lines (h : Fits 0 s) : ∀ line ∈ lines s, line.length ≤ maxLine := by
  obtain ⟨first, more, hlines, hfirst, hmore⟩ := h
  rw [hlines]
  exact List.forall_mem_cons.mpr ⟨by simpa using hfirst, hmore⟩

/-- Between two turns a line has 72 bytes at most, or a line break is next. -/
lemma fits_quote (linelen : ℕ) (input : List UInt8)
    (h : linelen ≤ 72 ∨ linelen ≤ 75 ∧ startsLine input) :
    Fits linelen (text (quote linelen input)) := by
  induction linelen, input using quote.induct with
  | case1 linelen =>
    rw [quote]
    exact fits_nil (by rw [maxLine]; omega)
  | case2 linelen b rest hhard ih =>
    rw [quote_cons_hard hhard]
    exact (ih (.inl (Nat.zero_le _))).crlf (by rw [maxLine]; omega)
  | case3 linelen b rest hhard hsoft ih =>
    have hlen := byteToken_length linelen b rest
    have hle : linelen ≤ 72 := h.resolve_right fun hs => hhard (hard_of_startsLine hs.2)
    have hsoft' : Token.soft.text = [0x3D] ++ Token.crlf.text := rfl
    rw [quote_cons hhard, if_pos hsoft, text_cons, text_cons, hsoft', List.append_assoc,
      ← List.append_assoc]
    refine Fits.append (Fits.crlf (ih (.inl (Nat.zero_le _))) ?_) ?_
    · rw [List.length_append, List.length_singleton, maxLine]
      omega
    · rw [List.mem_append, not_or]
      exact ⟨byteToken_no_cr linelen, by simp⟩
  | case4 linelen b rest hhard hsoft ih =>
    have hlen := byteToken_length linelen b rest
    have hle : linelen ≤ 72 := h.resolve_right fun hs => hhard (hard_of_startsLine hs.2)
    rw [quote_cons hhard, if_neg hsoft, text_cons]
    refine (ih ?_).append (byteToken_no_cr linelen)
    rw [maxLine] at hsoft
    by_cases hn : linelen + (byteToken linelen b rest).text.length ≤ 72
    · exact .inl hn
    · refine .inr ⟨by omega, ?_⟩
      by_contra hs
      exact hsoft ⟨by omega, hs⟩

end Lines

/-- **Quoting and back**: the encoder stays inside its output exactly when the quoted text and its
NUL fit, which it does not check, the decoder inside its input and output exactly when the text is
not a lone equals sign and its bytes fit. A quoted text has no line over 76 bytes and is decoded to
what it was. -/
theorem qp_encode_decode (x y : List UInt8) (outlen cap : ℕ) :
    ((qpEncodeEx outlen x).isSome ↔ (text (quote 0 x)).length < outlen) ∧
      ((qpDecode cap y).isSome ↔ y ≠ [0x3D] ∧ (unquote y).length < cap) ∧
      ∀ s ∈ qpEncodeEx outlen x, (∀ line ∈ lines s, line.length ≤ maxLine) ∧
        qpDecode cap s = if x.length < cap then some x else none := by
  refine ⟨?_, ?_, fun s hs => ?_⟩
  · rw [qpEncodeEx_eq]
    split <;> simp [*]
  · by_cases hy : y = [0x3D]
    · simp [hy, qpDecode_lone]
    · rw [qpDecode_eq hy]
      split <;> simp [*]
  · rw [qpEncodeEx_eq, Option.mem_def] at hs
    split at hs
    · obtain rfl := Option.some.inj hs
      have hplain := quote_plain 0 x
      refine ⟨(fits_quote 0 x (.inl (Nat.zero_le _))).lines, ?_⟩
      rw [qpDecode_eq (text_ne_lone hplain), unquote_text hplain, quote_value]
    · cases hs

/-- A buffer of two bytes is written behind its end, and the byte behind a lone equals sign is read. -/
theorem qp_strays : qpEncodeEx 2 [0xE9] = none ∧ qpDecode 2 [0x3D] = none := by decide

end SteepSystem.Texts.QuotedPrintable
