import SteepSystem.Lib.CStrings
import SteepSystem.Lib.Outputs

/-!
`uuencode` and `uudecode` (`LIBRARY/common/util.c`): a text of lines with up to 45 bytes each behind
a header with a mode and a name, and its decoder.
-/

namespace SteepSystem.Texts.Uuencode

open SteepSystem.Lib.CStrings SteepSystem.Lib.Outputs

/-- `DEC(c)` -/
def dec (c : UInt8) : UInt8 := (c - 0x20) &&& 0x3F

/-- `ENC(c)` -/
def enc (c : UInt8) : UInt8 := if c ≠ 0 then (c &&& 0x3F) + 0x20 else 0x60

def eol : List UInt8 := [0x0D, 0x0A]

/-- `"begin "` -/
def begin_ : List UInt8 := [0x62, 0x65, 0x67, 0x69, 0x6E, 0x20]

/-- `"end\r\n"` -/
def end_ : List UInt8 := [0x65, 0x6E, 0x64, 0x0D, 0x0A]

/-! ### Encoding -/

/-- `%o` -/
def octal (mode : ℕ) : List UInt8 :=
  if mode < 8 then [UInt8.ofNat (0x30 + mode)]
  else octal (mode / 8) ++ [UInt8.ofNat (0x30 + mode % 8)]

/-- The characters of the three bytes at the pointer. -/
def quad (ptr : List UInt8) : List UInt8 :=
  let p0 := ptr.getD 0 0
  let p1 := ptr.getD 1 0
  let p2 := ptr.getD 2 0
  [enc (p0 >>> 2), enc (((p0 <<< 4) &&& (0x30 : UInt8)) ||| ((p1 >>> 4) &&& (0x0F : UInt8))),
    enc (((p1 <<< 2) &&& (0x3C : UInt8)) ||| ((p2 >>> 6) &&& (0x03 : UInt8))), enc (p2 &&& 0x3F)]

def quads : ℕ → List UInt8 → List UInt8
  | 0, _ => []
  | k + 1, ptr => quad ptr ++ quads k (ptr.drop 3)

/-- A line of `n` bytes; the last group of it may look behind the input. -/
def encodeLine (n : ℕ) (ptr : List UInt8) : List UInt8 :=
  enc (UInt8.ofNat n) :: quads ((n + 2) / 3) ptr ++ eol

/-- Characters one after the other, each of which has to leave room for one more. -/
def emit (outmax : ℕ) (out new : List UInt8) : Option (List UInt8) := put (outmax - 1) out new

def encodeLoop (outmax : ℕ) : ℕ → List UInt8 → ℕ → List UInt8 → Option (List UInt8)
  | 0, _, _, _ => none
  | fuel + 1, ptr, left, out =>
    let n := if left ≥ 45 then 45 else left
    (emit outmax out (encodeLine n ptr)).bind fun out =>
      if n = 0 then some out else encodeLoop outmax fuel (ptr.drop n) (left - n) out

/-- The text, or `none` where `-1` is returned. The input is in memory with something behind it. -/
def uuencode (mode : UInt32) (fileName : Option (List UInt8)) (mem : List UInt8) (inlen outmax : ℕ) :
    Option (List UInt8) :=
  match fileName with
  | none => encodeLoop outmax (inlen + 1) mem inlen []
  | some name =>
    (emit outmax [] (begin_ ++ octal mode.toNat ++ 0x20 :: name ++ eol)).bind fun out =>
      (encodeLoop outmax (inlen + 1) mem inlen out).bind fun out => put outmax out end_

/-! ### Decoding -/

/-- A pointer into the text: what is in memory from there on (zeros behind that), and how far the
end is. -/
structure Text where
  mem : List UInt8
  left : ℕ

def Text.skip (t : Text) (n : ℕ) : Text := ⟨t.mem.drop n, t.left - n⟩

/-- `search_string` for `"begin "`, which ignores case. -/
def searchBegin : ℕ → List UInt8 → Option Text
  | 0, _ => none
  | plen + 1, p => if casePrefix begin_ p then some ⟨p, plen + 1⟩ else searchBegin plen p.tail

def isEol (c : UInt8) : Bool := c = 0x0D || c = 0x0A

/-- The characters in front of a line end, when it comes within the limit and not behind the end. -/
def readLine : ℕ → ℕ → List UInt8 → Option (List UInt8)
  | 0, _, _ => none
  | limit + 1, left, p =>
    if isEol (p.headD 0) then some []
    else if left = 0 then none
    else (readLine limit (left - 1) p.tail).map (p.headD 0 :: ·)

/-- Behind a line and its end. -/
def Text.next (t : Text) (line : List UInt8) : Text :=
  let p := t.mem.drop line.length
  t.skip (line.length + if p.headD 0 = 0x0D ∧ p.tail.headD 0 = 0x0A then 2 else 1)

/-- `sscanf` with `%o`. -/
def scanOctal (s : List UInt8) : Option ℕ :=
  let s := s.dropWhile isspace
  let negative := s.headD 0 = 0x2D
  let s := if negative ∨ s.headD 0 = 0x2B then s.tail else s
  let digits := s.takeWhile fun c => 0x30 ≤ c && c ≤ 0x37
  let v : ℕ := digits.foldl (fun v c => 8 * v + (c.toNat - 0x30)) 0
  if digits = [] then none
  else some ((if 2 ^ 64 ≤ v then 2 ^ 64 - 1 else if negative then 2 ^ 64 - v else v) % 2 ^ 32)

/-- Mode, name and what follows; a text without `"begin "` has none. The name has no bound but its
buffer. -/
def header (mem : List UInt8) (inlen : ℕ) : Option (ℕ × List UInt8 × Text) :=
  match searchBegin inlen mem with
  | none => some (0o666, [], ⟨mem, inlen⟩)
  | some t =>
    let t := t.skip 6
    if t.mem.getD 3 0 ≠ 0x20 then none
    else (scanOctal t.mem).bind fun mode =>
      let t := t.skip 4
      (readLine 256 256 t.mem).map fun name => (mode, cstr name, t.next name)

/-- The bytes of `n`, from groups of four characters. -/
def decodeQuads : ℕ → ℕ → List UInt8 → List UInt8
  | 0, _, _ => []
  | k + 1, n, ptr =>
    let p0 := dec (ptr.getD 0 0)
    let p1 := dec (ptr.getD 1 0)
    let p2 := dec (ptr.getD 2 0)
    let p3 := dec (ptr.getD 3 0)
    [(p0 <<< 2) ||| (p1 >>> 4), (p1 <<< 4) ||| (p2 >>> 2), (p2 <<< 6) ||| p3].take n ++
      decodeQuads k (n - 3) (ptr.drop 4)

/-- A line in `buff`, padded to the length that its first character asks for; `none` where the
padding leaves the 80 bytes of `buff`, or the bytes the output. -/
def decodeLine (cap : ℕ) (line out : List UInt8) : Option (List UInt8) :=
  let n := (dec (line.headD 0)).toNat
  let expected := (n + 2) / 3 * 4
  if 80 ≤ expected then none
  else
    let buff := line ++ List.replicate (expected + 1 - line.length) 0x20
    put cap out (decodeQuads ((n + 2) / 3) n (buff.drop 1))

/-- `some none` where `-1` is returned. -/
def decodeLoop (cap : ℕ) : ℕ → Text → List UInt8 → Option (Option (List UInt8))
  | 0, _, out => some (some out)
  | fuel + 1, t, out =>
    if t.left = 0 then some (some out)
    else match readLine 80 t.left t.mem with
      | none => some none
      | some line =>
        if dec (line.headD 0) = 0 ∨ line = [] then some (some out)
        else (decodeLine cap line out).bind (decodeLoop cap fuel (t.next line))

/-- Mode, name and bytes, into a buffer of `cap` bytes, which the code does not know. -/
def uudecode (cap : ℕ) (mem : List UInt8) (inlen : ℕ) : Option (Option (ℕ × List UInt8 × List UInt8)) :=
  match header mem inlen with
  | none => some none
  | some (mode, name, t) =>
    (decodeLoop cap inlen t []).map fun r => r.map fun out => (mode, name, out)

/-! ### Groups -/

lemma dec_enc : ∀ c : UInt8, c < 64 → dec (enc c) = c ∧ isEol (enc c) = false := by
  refine forall_uint8 ?_
  decide +kernel

/-- The parts of a byte in two characters. -/
lemma parts_of_byte : ∀ c : UInt8,
    (c >>> 2 < 64 ∧ (c <<< 4) &&& (0x30 : UInt8) < 64 ∧ (c >>> 4) &&& (0x0F : UInt8) < 64 ∧
      (c <<< 2) &&& (0x3C : UInt8) < 64 ∧ (c >>> 6) &&& (0x03 : UInt8) < 64 ∧ c &&& 0x3F < 64) ∧
    (((c <<< 4) &&& (0x30 : UInt8)) <<< 4 = 0 ∧ ((c >>> 4) &&& (0x0F : UInt8)) >>> 4 = 0 ∧
      ((c <<< 2) &&& (0x3C : UInt8)) <<< 6 = 0 ∧ ((c >>> 6) &&& (0x03 : UInt8)) >>> 2 = 0) ∧
    ((c >>> 2) <<< 2 ||| ((c <<< 4) &&& (0x30 : UInt8)) >>> 4 = c ∧
      ((c >>> 4) &&& (0x0F : UInt8)) <<< 4 ||| ((c <<< 2) &&& (0x3C : UInt8)) >>> 2 = c ∧
      ((c >>> 6) &&& (0x03 : UInt8)) <<< 6 ||| (c &&& 0x3F) = c) := by
  refine forall_uint8 ?_
  decide +kernel

section Groups

variable {ptr : List UInt8} {n k : ℕ}

@[simp] lemma length_quad (ptr : List UInt8) : (quad ptr).length = 4 := rfl

lemma isEol_of_mem_quad {c : UInt8} (h : c ∈ quad ptr) : isEol c = false := by
  obtain ⟨⟨h1, h2, -⟩, -⟩ := parts_of_byte (ptr.getD 0 0)
  obtain ⟨⟨-, -, k1, k2, -⟩, -⟩ := parts_of_byte (ptr.getD 1 0)
  obtain ⟨⟨-, -, -, -, m1, m2⟩, -⟩ := parts_of_byte (ptr.getD 2 0)
  simp only [quad, List.mem_cons, List.not_mem_nil, or_false] at h
  rcases h with rfl | rfl | rfl | rfl
  · exact (dec_enc _ h1).2
  · exact (dec_enc _ (or_lt_sixtyFour h2 k1)).2
  · exact (dec_enc _ (or_lt_sixtyFour k2 m1)).2
  · exact (dec_enc _ m2).2

lemma length_quads (k : ℕ) (ptr : List UInt8) : (quads k ptr).length = 4 * k := by
  induction k generalizing ptr with
  | zero => rfl
  | succ k ih =>
    rw [quads, List.length_append, ih, length_quad]
    omega

lemma isEol_of_mem_quads {c : UInt8} (h : c ∈ quads k ptr) : isEol c = false := by
  induction k generalizing ptr with
  | zero => exact absurd h (by simp [quads])
  | succ k ih => exact (List.mem_append.mp h).elim isEol_of_mem_quad ih

/-- Four characters give the three bytes back. -/
lemma decodeQuads_quad (k n : ℕ) (ptr rest : List UInt8) :
    decodeQuads (k + 1) n (quad ptr ++ rest) =
      [ptr.getD 0 0, ptr.getD 1 0, ptr.getD 2 0].take n ++ decodeQuads k (n - 3) rest := by
  obtain ⟨⟨h1, h2, -⟩, ⟨h3, -⟩, h4, -⟩ := parts_of_byte (ptr.getD 0 0)
  obtain ⟨⟨-, -, k1, k2, -⟩, ⟨-, k3, k4, -⟩, -, k5, -⟩ := parts_of_byte (ptr.getD 1 0)
  obtain ⟨⟨-, -, -, -, m1, m2⟩, ⟨-, -, -, m3⟩, -, -, m4⟩ := parts_of_byte (ptr.getD 2 0)
  rw [decodeQuads]
  simp only [quad, List.cons_append, List.nil_append, List.getD_cons_zero, List.getD_cons_succ,
    (dec_enc _ h1).1, (dec_enc _ (or_lt_sixtyFour h2 k1)).1, (dec_enc _ (or_lt_sixtyFour k2 m1)).1,
    (dec_enc _ m2).1, UInt8.shiftRight_or, UInt8.shiftLeft_or, h3, k3, k4, m3, h4, k5, m4,
    UInt8.or_zero, UInt8.zero_or, List.drop_succ_cons, List.drop_zero]

lemma take_three (h : n ≤ ptr.length) :
    [ptr.getD 0 0, ptr.getD 1 0, ptr.getD 2 0].take n ++ (ptr.drop 3).take (n - 3) = ptr.take n := by
  match ptr, n, h with
  | _, 0, _ => rfl
  | [_], 1, _ => rfl
  | [_, _], 1, _ => rfl
  | [_, _], 2, _ => rfl
  | _ :: _ :: _ :: _, 1, _ => simp
  | _ :: _ :: _ :: _, 2, _ => simp
  | _ :: _ :: _ :: _, n + 3, _ => simp

/-- **A line** gives its bytes back, whatever stands behind the input. -/
lemma decodeQuads_quads (h : n ≤ ptr.length) :
    decodeQuads ((n + 2) / 3) n (quads ((n + 2) / 3) ptr) = ptr.take n := by
  induction n using Nat.strong_induction_on generalizing ptr with
  | h n ih =>
    cases n with
    | zero => rfl
    | succ n =>
      have hgroups : (n + 1 + 2) / 3 = (n + 1 - 3 + 2) / 3 + 1 ∨ (n + 1 + 2) / 3 = 1 ∧ n + 1 - 3 = 0 := by
        omega
      rcases hgroups with hk | ⟨hk, hn⟩
      · rw [hk, quads, decodeQuads_quad, ih (n + 1 - 3) (by omega), take_three h]
        rw [List.length_drop]
        omega
      · have htake := take_three h
        rw [hn, List.take_zero, List.append_nil] at htake
        rw [hk, quads, decodeQuads_quad, decodeQuads, List.append_nil, htake]

lemma length_decodeQuads (k n : ℕ) (ptr : List UInt8) (h : n ≤ 3 * k) :
    (decodeQuads k n ptr).length = n := by
  induction k generalizing n ptr with
  | zero => simp [decodeQuads]; omega
  | succ k ih =>
    rw [decodeQuads, List.length_append, ih (n - 3) _ (by omega), List.length_take]
    simp only [List.length_cons, List.length_nil]
    omega

end Groups

/-! ### Lines -/

/-- The lines of the input, with that of length zero. -/
def body : ℕ → List UInt8 → ℕ → List UInt8
  | 0, _, _ => []
  | fuel + 1, ptr, left =>
    let n := if left ≥ 45 then 45 else left
    encodeLine n ptr ++ if n = 0 then [] else body fuel (ptr.drop n) (left - n)

/-- What the first character of a line says that it holds. -/
def count (line : List UInt8) : ℕ := (dec (line.headD 0)).toNat

section Lines

variable {fuel left limit : ℕ} {line p rest : List UInt8}

lemma encodeLoop_eq (outmax : ℕ) (ptr out : List UInt8) (h : left < fuel) :
    encodeLoop outmax fuel ptr left out = emit outmax out (body fuel ptr left) := by
  induction fuel generalizing ptr left out with
  | zero => omega
  | succ fuel ih =>
    rw [encodeLoop, body]
    generalize hn : (if left ≥ 45 then 45 else left) = n
    by_cases h0 : n = 0
    · simp only [h0, if_true, List.append_nil]
      cases emit outmax out (encodeLine 0 ptr) <;> rfl
    · have hlt : left - n < fuel := by
        split at hn <;> omega
      simp only [if_neg h0, ih _ _ hlt]
      exact put_put out _ _

lemma readLine_append (h : ∀ c ∈ line, isEol c = false) (hlimit : line.length < limit)
    (hleft : line.length ≤ left) : readLine limit left (line ++ 0x0D :: rest) = some line := by
  induction line generalizing limit left with
  | nil =>
    obtain ⟨limit, rfl⟩ := Nat.exists_eq_succ_of_ne_zero (Nat.ne_of_gt hlimit)
    rfl
  | cons c line ih =>
    rw [List.forall_mem_cons] at h
    rw [List.length_cons] at hlimit hleft
    obtain ⟨limit, rfl⟩ := Nat.exists_eq_succ_of_ne_zero (Nat.ne_of_gt (Nat.zero_lt_of_lt hlimit))
    have hleft' : left ≠ 0 := by omega
    rw [readLine, List.cons_append, List.headD_cons, h.1, if_neg Bool.false_ne_true, if_neg hleft',
      List.tail_cons, ih h.2 (by omega) (by omega)]
    rfl

/-- The line that is read ends at the first line end. -/
lemma readLine_starts {a b : List UInt8} {e : UInt8} (he : isEol e)
    (h : readLine limit left (a ++ e :: b) = some line) :
    line.IsPrefix a ∧ line.length < limit ∧ ∀ c ∈ line, isEol c = false := by
  induction a generalizing limit left line with
  | nil =>
    cases limit with
    | zero => cases h
    | succ limit =>
      rw [List.nil_append, readLine, List.headD_cons, if_pos he] at h
      obtain rfl := Option.some.inj h
      exact ⟨List.nil_prefix, Nat.succ_pos _, by simp⟩
  | cons c a ih =>
    cases limit with
    | zero => cases h
    | succ limit =>
      rw [List.cons_append, readLine, List.headD_cons, List.tail_cons] at h
      split at h
      · obtain rfl := Option.some.inj h
        exact ⟨List.nil_prefix, Nat.succ_pos _, by simp⟩
      · split at h
        · cases h
        · obtain ⟨line, hline, rfl⟩ := Option.map_eq_some_iff.mp h
          obtain ⟨hstarts, hlen, hall⟩ := ih hline
          have hc : isEol c = false := by simpa using ‹¬ isEol c = true›
          exact ⟨(List.prefix_cons_inj c).mpr hstarts, by simpa using hlen,
            List.forall_mem_cons.mpr ⟨hc, hall⟩⟩

lemma next_append (line rest : List UInt8) (left : ℕ) :
    Text.next ⟨line ++ eol ++ rest, left⟩ line = ⟨rest, left - (line.length + 2)⟩ := by
  have hdrop : (line ++ eol ++ rest).drop line.length = eol ++ rest := by
    rw [List.append_assoc, List.drop_left]
  have hskip : (line ++ eol ++ rest).drop (line.length + 2) = rest := by
    rw [← List.drop_drop, hdrop]
    rfl
  rw [Text.next]
  dsimp only
  rw [hdrop, if_pos ⟨rfl, rfl⟩, Text.skip, hskip]

/-- A line of the encoder without its end. -/
lemma encodeLine_eq (n : ℕ) (ptr : List UInt8) : encodeLine n ptr =
    (enc (UInt8.ofNat n) :: quads ((n + 2) / 3) ptr) ++ eol := rfl

lemma count_encoded {n : ℕ} (h : n ≤ 45) (l : List UInt8) :
    count (enc (UInt8.ofNat n) :: l) = n ∧ isEol (enc (UInt8.ofNat n)) = false := by
  have hlt : UInt8.ofNat n < 64 := by
    rw [UInt8.lt_iff_toNat_lt, UInt8.toNat_ofNat']
    have : (64 : UInt8).toNat = 64 := rfl
    omega
  obtain ⟨hdec, heol⟩ := dec_enc _ hlt
  refine ⟨?_, heol⟩
  rw [count, List.headD_cons, hdec, UInt8.toNat_ofNat']
  omega

lemma decodeLine_encoded {n cap : ℕ} {ptr out : List UInt8} (h : n ≤ 45) (hptr : n ≤ ptr.length)
    (hcap : out.length + n ≤ cap) :
    decodeLine cap (enc (UInt8.ofNat n) :: quads ((n + 2) / 3) ptr) out =
      some (out ++ ptr.take n) := by
  have hcount := (count_encoded h (quads ((n + 2) / 3) ptr)).1
  have hlen := length_quads ((n + 2) / 3) ptr
  rw [count] at hcount
  rw [decodeLine, hcount]
  dsimp only
  have hpad : (n + 2) / 3 * 4 + 1 - (enc (UInt8.ofNat n) :: quads ((n + 2) / 3) ptr).length = 0 := by
    rw [List.length_cons, hlen]
    omega
  rw [if_neg (by omega), hpad, List.replicate_zero, List.append_nil, List.drop_one, List.tail_cons,
    decodeQuads_quads hptr, put_of_le]
  rw [List.length_take]
  omega

/-- **The loop** gives the bytes of the encoded lines back. -/
lemma decodeLoop_body {cap fuel' tleft : ℕ} {ptr out : List UInt8} (tail : List UInt8)
    (hfuel : left < fuel) (hptr : left ≤ ptr.length) (hcap : out.length + left ≤ cap)
    (hleft : (body fuel ptr left).length ≤ tleft) (hfuel' : tleft ≤ fuel') :
    decodeLoop cap fuel' ⟨body fuel ptr left ++ tail, tleft⟩ out =
      some (some (out ++ ptr.take left)) := by
  induction fuel generalizing ptr left out tleft fuel' with
  | zero => omega
  | succ fuel ih =>
    rw [body] at hleft ⊢
    generalize hn : (if left ≥ 45 then 45 else left) = n at hleft ⊢
    have hn45 : n ≤ 45 ∧ n ≤ left ∧ (n = 0 → left = 0) := by
      split at hn <;> omega
    generalize hrest : (if n = 0 then [] else body fuel (ptr.drop n) (left - n)) = rest at hleft ⊢
    obtain ⟨hcount, heol⟩ := count_encoded hn45.1 (quads ((n + 2) / 3) ptr)
    have hquads := length_quads ((n + 2) / 3) ptr
    rw [encodeLine_eq] at hleft ⊢
    rw [List.append_assoc]
    set line := enc (UInt8.ofNat n) :: quads ((n + 2) / 3) ptr with hline
    have hlen : line.length = 4 * ((n + 2) / 3) + 1 := by rw [hline, List.length_cons, hquads]
    have heol2 : eol.length = 2 := rfl
    rw [List.length_append, List.length_append, hlen, heol2] at hleft
    have hread : readLine 80 tleft (line ++ eol ++ (rest ++ tail)) = some line := by
      rw [List.append_assoc]
      refine readLine_append ?_ (by omega) (by omega)
      exact List.forall_mem_cons.mpr ⟨heol, fun c hc => isEol_of_mem_quads hc⟩
    have hzero : (dec (line.headD 0) = 0 ∨ line = []) ↔ n = 0 := by
      rw [← hcount, count, ← UInt8.toNat_inj]
      simp [hline]
    obtain ⟨fuel', rfl⟩ : ∃ f, fuel' = f + 1 := ⟨fuel' - 1, by omega⟩
    rw [decodeLoop, if_neg (by dsimp only; omega)]
    dsimp only
    rw [hread]
    dsimp only
    by_cases h0 : n = 0
    · rw [if_pos (hzero.mpr h0), hn45.2.2 h0, List.take_zero, List.append_nil]
    · rw [if_neg (hzero.not.mpr h0), hline, decodeLine_encoded hn45.1 (by omega) (by omega),
        Option.bind_some, ← hline, next_append]
      rw [if_neg h0] at hrest
      rw [← hrest] at hleft ⊢
      have htake : ptr.take left = ptr.take n ++ (ptr.drop n).take (left - n) := by
        rw [← List.take_add, Nat.add_sub_cancel' hn45.2.1]
      have hlen' : (out ++ ptr.take n).length = out.length + n := by
        rw [List.length_append, List.length_take, Nat.min_eq_left (by omega)]
      rw [htake, ← List.append_assoc]
      refine ih (by omega) ?_ (by omega) (by omega) (by omega)
      rw [List.length_drop]
      omega

end Lines

/-! ### Header -/

lemma octal_digit : ∀ k : Fin 8, (isspace (UInt8.ofNat (0x30 + k)) = false ∧
    UInt8.ofNat (0x30 + k) ≠ 0x2D ∧ UInt8.ofNat (0x30 + k) ≠ 0x2B ∧
    UInt8.ofNat (0x30 + k) ≠ 0x20) ∧ 0x30 ≤ UInt8.ofNat (0x30 + k) ∧
    UInt8.ofNat (0x30 + k) ≤ 0x37 ∧ (UInt8.ofNat (0x30 + k)).toNat - 0x30 = k := by decide +kernel

section Header

variable {m left : ℕ} {name rest : List UInt8}

lemma octal_of_lt (h : m < 8) : octal m = [UInt8.ofNat (0x30 + m)] := by rw [octal, if_pos h]

lemma octal_of_le (h : 8 ≤ m) : octal m = octal (m / 8) ++ [UInt8.ofNat (0x30 + m % 8)] := by
  rw [octal, if_neg (by omega)]

lemma octal_three (h : 64 ≤ m) (h' : m < 512) : octal m = [UInt8.ofNat (0x30 + m / 64),
    UInt8.ofNat (0x30 + m / 8 % 8), UInt8.ofNat (0x30 + m % 8)] := by
  have hdiv : m / 8 / 8 = m / 64 := by omega
  rw [octal_of_le (by omega), octal_of_le (by omega), octal_of_lt (by omega), hdiv]
  rfl

lemma octal_ne_nil (m : ℕ) : octal m ≠ [] := by
  rw [octal]
  split <;> simp

lemma mem_octal {c : UInt8} (h : c ∈ octal m) : c ≠ 0x20 := by
  induction m using octal.induct with
  | case1 m hm =>
    rw [octal_of_lt hm, List.mem_singleton] at h
    rw [h]
    exact (octal_digit ⟨m, hm⟩).1.2.2.2
  | case2 m hm ih =>
    rw [octal_of_le (not_lt.mp hm), List.mem_append, List.mem_singleton] at h
    rcases h with h | rfl
    · exact ih h
    · exact (octal_digit ⟨m % 8, Nat.mod_lt _ (by omega)⟩).1.2.2.2

/-- A mode of four digits and more has a digit where the blank is looked for. -/
lemma octal_getD_three (h : 512 ≤ m) (l : List UInt8) : (octal m ++ l).getD 3 0 ≠ 0x20 := by
  have hlen : 3 < (octal m).length := by
    rw [octal_of_le (by omega), octal_of_le (by omega), octal_of_le (by omega)]
    have hpos := List.length_pos_of_ne_nil (octal_ne_nil (m / 8 / 8 / 8))
    simp only [List.length_append, List.length_singleton]
    omega
  have hget : (octal m ++ l).getD 3 0 = (octal m)[3] := by
    rw [List.getD_eq_getElem?_getD, List.getElem?_append_left hlen, List.getElem?_eq_getElem hlen]
    rfl
  rw [hget]
  exact mem_octal (List.getElem_mem hlen)

lemma scanOctal_octal (h : 64 ≤ m) (h' : m < 512) (l : List UInt8) :
    scanOctal (octal m ++ 0x20 :: l) = some m := by
  obtain ⟨⟨s1, n1, p1, -⟩, lo1, hi1, v1⟩ := octal_digit ⟨m / 64, by omega⟩
  obtain ⟨-, lo2, hi2, v2⟩ := octal_digit ⟨m / 8 % 8, by omega⟩
  obtain ⟨-, lo3, hi3, v3⟩ := octal_digit ⟨m % 8, by omega⟩
  rw [octal_three h h']
  dsimp only at s1 n1 p1 lo1 hi1 v1 lo2 hi2 v2 lo3 hi3 v3
  generalize UInt8.ofNat (48 + m / 64) = a at *
  generalize UInt8.ofNat (48 + m / 8 % 8) = b at *
  generalize UInt8.ofNat (48 + m % 8) = c at *
  have hspace : ([a, b, c] ++ 0x20 :: l).dropWhile isspace = [a, b, c] ++ 0x20 :: l := by simp [s1]
  have hdigits : ([a, b, c] ++ 0x20 :: l).takeWhile (fun c => 0x30 ≤ c && c ≤ 0x37) = [a, b, c] := by
    simp [lo1, hi1, lo2, hi2, lo3, hi3]
  have hhead : ([a, b, c] ++ 0x20 :: l).headD 0 = a := rfl
  have hvalue : 8 * (8 * (8 * 0 + m / 64) + m / 8 % 8) + m % 8 = m := by omega
  rw [scanOctal]
  simp only [hspace, hhead, n1, p1, or_self, if_false, hdigits, List.foldl_cons,
    List.foldl_nil, v1, v2, v3, hvalue, reduceCtorEq]
  rw [if_neg (by omega), Nat.mod_eq_of_lt (by omega)]

/-- The text of the header and what follows it. -/
def headed (m : ℕ) (name rest : List UInt8) : List UInt8 :=
  begin_ ++ (octal m ++ 0x20 :: (name ++ eol ++ rest))

lemma header_headed (m : ℕ) (name rest : List UInt8) (left : ℕ) :
    header (headed m name rest) (left + 1) =
      let p := octal m ++ 0x20 :: (name ++ eol ++ rest)
      if p.getD 3 0 ≠ 0x20 then none
      else (scanOctal p).bind fun mode => (readLine 256 256 (p.drop 4)).map fun line =>
        (mode, cstr line, Text.next ⟨p.drop 4, left + 1 - 6 - 4⟩ line) := by
  have hfound : searchBegin (left + 1) (headed m name rest) =
      some ⟨headed m name rest, left + 1⟩ := by
    rw [searchBegin, headed, casePrefix_append, if_pos rfl]
  rw [header, hfound]
  rfl

lemma isEol_eq_false {c : UInt8} : isEol c = false ↔ c ≠ 0x0D ∧ c ≠ 0x0A := by simp [isEol]

/-- What the name has to be to come back. -/
structure NameOk (name : List UInt8) : Prop where
  length : name.length ≤ 255
  cr : 0x0D ∉ name
  lf : 0x0A ∉ name

lemma NameOk.isEol (h : NameOk name) : ∀ c ∈ name, isEol c = false := fun _ hc =>
  isEol_eq_false.mpr ⟨fun h' => h.cr (h' ▸ hc), fun h' => h.lf (h' ▸ hc)⟩

lemma header_ok (h : 64 ≤ m) (h' : m < 512) (hname : NameOk name) (h0 : 0 ∉ name)
    (rest : List UInt8) (left : ℕ) : header (headed m name rest) (left + 1) =
      some (m, name, ⟨rest, left + 1 - 6 - 4 - (name.length + 2)⟩) := by
  have hcstr : cstr name = name := List.takeWhile_eq_self_iff.mpr fun c hc => by
    have hne : c ≠ 0 := fun hc0 => h0 (hc0 ▸ hc)
    simp [hne]
  have hthree := octal_three h h'
  have hread : readLine 256 256 (name ++ eol ++ rest) = some name := by
    have hlen := hname.length
    rw [List.append_assoc]
    exact readLine_append hname.isEol (by omega) (by omega)
  have hdrop : (octal m ++ 0x20 :: (name ++ eol ++ rest)).drop 4 = name ++ eol ++ rest := by
    rw [hthree]
    rfl
  have hget : (octal m ++ 0x20 :: (name ++ eol ++ rest)).getD 3 0 = 0x20 := by
    rw [hthree]
    rfl
  rw [header_headed]
  dsimp only
  rw [hget, if_neg (not_not.mpr rfl), scanOctal_octal h h', Option.bind_some, hdrop, hread,
    Option.map_some, hcstr, next_append]

/-- A name that comes back is whole, behind a mode of three digits. -/
lemma header_name {left mode : ℕ} {t : Text}
    (h : header (headed m name rest) (left + 1) = some (mode, name, t)) :
    (64 ≤ m ∧ m < 512) ∧ NameOk name := by
  rw [header_headed] at h
  dsimp only at h
  split at h
  · cases h
  · rename_i hblank
    rw [not_not] at hblank
    obtain ⟨mode', -, h⟩ := Option.bind_eq_some_iff.mp h
    obtain ⟨line, hline, heq⟩ := Option.map_eq_some_iff.mp h
    have hcstr : cstr line = name := (Prod.mk.inj (Prod.mk.inj heq).2).1
    have hle : name.length ≤ line.length := by
      rw [← hcstr]
      exact (List.takeWhile_prefix _).length_le
    by_cases h512 : 512 ≤ m
    · exact absurd hblank (octal_getD_three h512 _)
    by_cases h64 : 64 ≤ m
    · refine ⟨⟨h64, by omega⟩, ?_⟩
      rw [octal_three h64 (by omega)] at hline
      have hdrop : ∀ a b c : UInt8, ([a, b, c] ++ 0x20 :: (name ++ eol ++ rest)).drop 4 =
          name ++ 0x0D :: 0x0A :: rest := fun a b c => by simp [eol]
      rw [hdrop] at hline
      obtain ⟨hstarts, hlen, hall⟩ := readLine_starts (by rfl) hline
      obtain rfl := hstarts.eq_of_length_le hle
      exact ⟨by omega, fun hc => absurd (hall _ hc) (by decide),
        fun hc => absurd (hall _ hc) (by decide)⟩
    · exfalso
      -- the blank is one of the name, and what is read begins behind it
      have hshort : ∃ j, 1 ≤ j ∧ j ≤ name.length ∧
          (octal m ++ 0x20 :: (name ++ eol ++ rest)).drop 4 =
            name.drop j ++ 0x0D :: 0x0A :: rest := by
        by_cases h8 : 8 ≤ m
        · rw [octal_of_le h8, octal_of_lt (by omega)] at hblank ⊢
          cases name with
          | nil =>
            have hcr : (0x0D : UInt8) = 0x20 := hblank
            exact absurd hcr (by decide)
          | cons c name => exact ⟨1, le_rfl, by simp, by simp [eol]⟩
        · rw [octal_of_lt (by omega)] at hblank ⊢
          match name with
          | [] =>
            have hlf : (0x0A : UInt8) = 0x20 := hblank
            exact absurd hlf (by decide)
          | [c] =>
            have hcr : (0x0D : UInt8) = 0x20 := hblank
            exact absurd hcr (by decide)
          | c :: d :: name => exact ⟨2, by omega, by simp, by simp [eol]⟩
      obtain ⟨j, hj, hjname, hdrop⟩ := hshort
      rw [hdrop] at hline
      have hstarts := (readLine_starts (by rfl) hline).1.length_le
      rw [List.length_drop] at hstarts
      omega

end Header

/-! ### Writes -/

/-- The lines that the loop comes by. -/
def bodyLines : ℕ → Text → List (List UInt8)
  | 0, _ => []
  | fuel + 1, t =>
    if t.left = 0 then []
    else match readLine 80 t.left t.mem with
      | none => []
      | some line =>
        if dec (line.headD 0) = 0 ∨ line = [] then [] else line :: bodyLines fuel (t.next line)

def lines (mem : List UInt8) (inlen : ℕ) : List (List UInt8) :=
  match header mem inlen with
  | none => []
  | some (_, _, t) => bodyLines inlen t

section Writes

variable {cap fuel : ℕ} {line out : List UInt8} {t : Text}

lemma decodeLine_eq_some (cap : ℕ) (line out : List UInt8) :
    (count line < 58 ∧ out.length + count line ≤ cap ∧
      ∃ out', decodeLine cap line out = some out' ∧ out'.length = out.length + count line) ∨
    (¬ (count line < 58 ∧ out.length + count line ≤ cap) ∧ decodeLine cap line out = none) := by
  rw [decodeLine, ← count]
  dsimp only
  have hlen (l : List UInt8) : (decodeQuads ((count line + 2) / 3) (count line) l).length = count line :=
    length_decodeQuads _ _ _ (by omega)
  by_cases h58 : count line < 58
  · rw [if_neg (by omega)]
    by_cases hroom : out.length + count line ≤ cap
    · refine .inl ⟨h58, hroom, _, put_of_le (by rwa [hlen]), ?_⟩
      rw [List.length_append, hlen]
    · exact .inr ⟨fun h => hroom h.2, put_eq_none (by rw [hlen]; omega)⟩
  · exact .inr ⟨fun h => h58 h.1, if_pos (by omega)⟩

/-- **The loop** stays inside `buff` and the output exactly when the lines do. -/
lemma decodeLoop_isSome (hout : out.length ≤ cap) :
    (decodeLoop cap fuel t out).isSome ↔ (∀ line ∈ bodyLines fuel t, count line < 58) ∧
      out.length + ((bodyLines fuel t).map count).sum ≤ cap := by
  induction fuel generalizing t out with
  | zero => simp [decodeLoop, bodyLines, hout]
  | succ fuel ih =>
    rw [decodeLoop, bodyLines]
    by_cases hleft : t.left = 0
    · simp [hleft, hout]
    · rw [if_neg hleft, if_neg hleft]
      cases hread : readLine 80 t.left t.mem with
      | none => simp [hout]
      | some line =>
        dsimp only
        by_cases hlast : dec (line.headD 0) = 0 ∨ line = []
        · rw [if_pos hlast, if_pos hlast]
          simp [hout]
        · rw [if_neg hlast, if_neg hlast, List.forall_mem_cons, List.map_cons, List.sum_cons]
          rcases decodeLine_eq_some cap line out with ⟨h58, hroom, out', hout', hlen⟩ | ⟨hno, hnone⟩
          · rw [hout', Option.bind_some, ih (by omega), hlen, Nat.add_assoc]
            exact ⟨fun h => ⟨⟨h58, h.1⟩, h.2⟩, fun h => ⟨h.1.2, h.2⟩⟩
          · rw [hnone, Option.bind_none]
            refine iff_of_false Bool.false_ne_true fun h => hno ⟨h.1.1, ?_⟩
            omega

end Writes

lemma uudecode_isSome (cap : ℕ) (mem : List UInt8) (inlen : ℕ) :
    (uudecode cap mem inlen).isSome ↔ (∀ line ∈ lines mem inlen, count line < 58) ∧
      ((lines mem inlen).map count).sum ≤ cap := by
  rw [uudecode, lines]
  cases header mem inlen with
  | none => simp
  | some r =>
    obtain ⟨mode, name, t⟩ := r
    dsimp only
    rw [Option.isSome_map, decodeLoop_isSome (Nat.zero_le _), List.length_nil, Nat.zero_add]

/-! ### Both ways -/

/-- The text of the encoder. -/
lemma uuencode_eq {mode : UInt32} {name mem text : List UInt8} {inlen outmax : ℕ}
    (h : uuencode mode (some name) mem inlen outmax = some text) :
    text = headed mode.toNat name (body (inlen + 1) mem inlen ++ end_) := by
  rw [uuencode] at h
  obtain ⟨out, hout, h⟩ := Option.bind_eq_some_iff.mp h
  obtain ⟨out', hout', h⟩ := Option.bind_eq_some_iff.mp h
  rw [encodeLoop_eq _ _ _ (Nat.lt_succ_self _)] at hout'
  have hwritten {c : ℕ} {a b r : List UInt8} (hput : put c a b = some r) : r = a ++ b := by
    rw [put] at hput
    split at hput
    · exact (Option.some.inj hput).symm
    · cases hput
  rw [hwritten h, hwritten hout', hwritten hout, headed]
  simp

/-- **Encoding and decoding**: with its mode and its name a text comes back exactly when the mode has
three octal digits and the name is a line of at most 255 bytes. The decoder stays inside its line
buffer and the output exactly when no line that it comes by asks for more than 57 bytes and they fit
together. -/
theorem uuencode_uudecode (mode : UInt32) (name x behind after mem : List UInt8)
    (outmax cap inlen : ℕ) (h0 : 0 ∉ name) :
    (∀ text ∈ uuencode mode (some name) (x ++ behind) x.length outmax, x.length ≤ cap →
      (uudecode cap (text ++ after) text.length = some (some (mode.toNat, name, x)) ↔
        (64 ≤ mode.toNat ∧ mode.toNat < 512) ∧ NameOk name)) ∧
    ((uudecode cap mem inlen).isSome ↔ (∀ line ∈ lines mem inlen, count line < 58) ∧
      ((lines mem inlen).map count).sum ≤ cap) := by
  refine ⟨fun text htext hcap => ?_, uudecode_isSome cap mem inlen⟩
  obtain rfl := uuencode_eq htext
  set lines := body (x.length + 1) (x ++ behind) x.length with hlines
  have happend : headed mode.toNat name (lines ++ end_) ++ after =
      headed mode.toNat name (lines ++ (end_ ++ after)) := by simp [headed]
  have hlen : (headed mode.toNat name (lines ++ end_)).length =
      (octal mode.toNat).length + name.length + lines.length + 13 + 1 := by
    simp [headed, begin_, end_, eol]
    omega
  rw [happend, hlen]
  constructor
  · intro hback
    rw [uudecode] at hback
    split at hback
    · cases hback
    · rename_i m nm t hheader
      obtain ⟨r, hr, hback⟩ := Option.map_eq_some_iff.mp hback
      obtain ⟨out, rfl, hback⟩ := Option.map_eq_some_iff.mp hback
      obtain ⟨-, rfl, -⟩ : m = mode.toNat ∧ nm = name ∧ out = x := by
        simpa [Prod.ext_iff] using hback
      exact header_name hheader
  · rintro ⟨⟨hmin, hmax⟩, hname⟩
    have hthree : (octal mode.toNat).length = 3 := by rw [octal_three hmin hmax]; rfl
    rw [uudecode, header_ok hmin hmax hname h0]
    dsimp only
    rw [hlines, decodeLoop_body _ (Nat.lt_succ_self _) (by simp) (by simpa using hcap)
      (by rw [← hlines]; omega) (by omega)]
    simp

theorem uuencode_uudecode_empty :
    (∀ text ∈ uuencode 0o644 (some [0x61]) ([] ++ [0x62]) 0 100, 0 ≤ 9 →
      (uudecode 9 (text ++ []) text.length = some (some ((0o644 : UInt32).toNat, [0x61], [])) ↔
        (64 ≤ (0o644 : UInt32).toNat ∧ (0o644 : UInt32).toNat < 512) ∧ NameOk [0x61])) ∧
    ((uudecode 9 [0x60, 0x0A] 2).isSome ↔ (∀ line ∈ lines [0x60, 0x0A] 2, count line < 58) ∧
      ((lines [0x60, 0x0A] 2).map count).sum ≤ 9) :=
  uuencode_uudecode 0o644 [0x61] [] [0x62] [] [0x60, 0x0A] 100 9 2 (by decide)

/-- A line that asks for 58 bytes is padded behind `buff`, and a mode of four digits is not read. -/
theorem uudecode_strays : uudecode 100 [0x5A, 0x0A] 2 = none ∧
    (uuencode 0o1000 (some [0x61]) [] 0 100).map (fun text => uudecode 100 text text.length) =
      some (some none) := by decide +kernel

end SteepSystem.Texts.Uuencode
