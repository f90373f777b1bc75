import SteepSystem.Lib.CStrings

/-!
`itvltoa` and `atoitvl` (`LIBRARY/common/util.c`): an interval of seconds as days, hours, minutes
and seconds, and read back.
-/

namespace SteepSystem.Texts.Intervals

open SteepSystem.Lib.CStrings

inductive Part
  | day | hour | minute | second
  deriving DecidableEq

namespace Part

def all : List Part := [day, hour, minute, second]

def word : Part → List UInt8
  | day => [0x64, 0x61, 0x79]
  | hour => [0x68, 0x6F, 0x75, 0x72]
  | minute => [0x6D, 0x69, 0x6E, 0x75, 0x74, 0x65]
  | second => [0x73, 0x65, 0x63, 0x6F, 0x6E, 0x64]

/-- How far `itvltoa` moves its offset behind a part that is one. -/
def skip : Part → ℕ
  | day => 5
  | hour => 6
  | minute => 8
  | second => 8

def weight : Part → ℕ
  | day => 86400
  | hour => 3600
  | minute => 60
  | second => 1

end Part

/-! ### Writing -/

/-- The digits of `ltoa` to base ten, the last one first. -/
def ltoaLoop : ℕ → ℕ → List UInt8
  | 0, _ => []
  | fuel + 1, value =>
    UInt8.ofNat (48 + value % 10) :: if value / 10 > 0 then ltoaLoop fuel (value / 10) else []

def ltoa (value : ℕ) : List UInt8 := (ltoaLoop (value + 1) value).reverse

/-- `strcpy(string + offset, text)` in a buffer that is long enough. -/
def strcpyAt (string : List UInt8) (offset : ℕ) (text : List UInt8) : List UInt8 :=
  string.take offset ++ text ++ 0 :: string.drop (offset + text.length + 1)

structure Out where
  string : List UInt8
  offset : ℕ

/-- The block of one part. -/
def part (p : Part) (value : ℕ) (s : Out) : Out :=
  if value = 0 then s
  else if value > 1 then
    let string := strcpyAt s.string s.offset (ltoa value)
    let offset := (cstr string).length
    ⟨strcpyAt string offset (p.word ++ [0x73]), offset + (p.word.length + 1)⟩
  else ⟨strcpyAt s.string s.offset (0x31 :: p.word), s.offset + p.skip⟩

/-- Days, hours, minutes and seconds of an interval. -/
def split (interval : ℕ) : Part → ℕ :=
  if interval ≥ 86400 then fun
    | .day => interval / 86400
    | .hour => interval % 86400 / 3600
    | .minute => interval % 86400 % 3600 / 60
    | .second => interval % 86400 % 3600 % 60
  else if interval ≥ 3600 then fun
    | .day => 0
    | .hour => interval / 3600
    | .minute => interval % 3600 / 60
    | .second => interval % 3600 % 60
  else if interval ≥ 60 then fun
    | .day => 0
    | .hour => 0
    | .minute => interval / 60
    | .second => interval % 60
  else fun
    | .day => 0
    | .hour => 0
    | .minute => 0
    | .second => interval

def itvltoa (interval : ℤ) (string : List UInt8) : List UInt8 :=
  if interval = 0 then strcpyAt string 0 (0x30 :: Part.second.word)
  else (Part.all.foldl (fun s p => part p (split interval.natAbs p) s) ⟨string, 0⟩).string

/-! ### Reading -/

/-- What stands from `pbegin` to the cursor, and the parts read so far; `-1` is one not yet read. -/
structure Scan where
  text : List UInt8
  values : Part → ℤ

def Scan.read (s : Scan) (p : Part) : Scan := ⟨[], Function.update s.values p (atol s.text)⟩

def unitOf (c : UInt8) : Option Part :=
  if c = 0x64 ∨ c = 0x44 then some .day
  else if c = 0x68 ∨ c = 0x48 then some .hour
  else if c = 0x6D ∨ c = 0x4D then some .minute
  else if c = 0x73 ∨ c = 0x53 then some .second
  else none

/-- A letter that stands for its unit, at `i`. That of days looks for the end of the string at
`i + i`, which may not be in the string. -/
def alone (p : Part) (string : List UInt8) (i : ℕ) (next : UInt8) : Option Bool :=
  match p with
  | .day =>
    if next = 0x20 ∨ next = 0x2C ∨ next = 0x09 then some true
    else (string ++ [0])[i + i]?.map fun c => c = 0 ∨ isdigit next
  | .hour => some (next = 0x20 ∨ next = 0x2C ∨ next = 0x09 ∨ next = 0 ∨ isdigit next)
  | .minute | .second => some (next = 0x20 ∨ next = 0x09 ∨ next = 0 ∨ isdigit next)

/-- The sum of the parts, a `long`. -/
def total (values : Part → ℤ) : ℤ :=
  (Part.all.map fun p => if values p = -1 then 0 else p.weight * values p).sum

def finish (string : List UInt8) (values : Part → ℤ) : ℤ :=
  if values .day = -1 ∧ values .hour = -1 ∧ values .minute = -1 ∧ values .second = -1 then
    atol string
  else (total values).bmod (2 ^ 64)

/-- The loop at what is left of the string, with the bytes of a word that it passes by. -/
def scan (string : List UInt8) : ℕ → Scan → List UInt8 → Option ℤ
  | _, s, [] => some (finish string s.values)
  | skip + 1, s, _ :: rest => scan string skip s rest
  | 0, s, c :: rest =>
    match unitOf c with
    | some p =>
      if s.values p ≠ -1 then some (-1)
      else if casePrefix p.word (c :: rest) then
        let next := (rest.drop (p.word.length - 1)).headD 0
        if next = 0x73 ∨ next = 0x53 then scan string p.word.length (s.read p) rest
        else scan string (p.word.length - 1) (s.read p) rest
      else
        match alone p string (string.length - (rest.length + 1)) (rest.headD 0) with
        | none => none
        | some true => scan string 0 (s.read p) rest
        | some false => some (-1)
    | none =>
      if isdigit c ∨ c = 0x20 ∨ c = 0x2C ∨ c = 0x09 then
        scan string 0 { s with text := s.text ++ [c] } rest
      else some (-1)

/-- `none` where a byte is read that is not in the string. -/
def atoitvl (string : List UInt8) : Option ℤ :=
  if string.length > 1024 then some (-1) else scan string 0 ⟨[], fun _ => -1⟩ string

/-! ### Digits -/

lemma isdigit_digit (v : ℕ) : isdigit (UInt8.ofNat (48 + v % 10)) ∧
    (UInt8.ofNat (48 + v % 10)).toNat = 48 + v % 10 := by
  have hn : (UInt8.ofNat (48 + v % 10)).toNat = 48 + v % 10 := by
    rw [UInt8.toNat_ofNat']
    omega
  refine ⟨?_, hn⟩
  simp only [isdigit, Bool.and_eq_true, decide_eq_true_eq, UInt8.le_iff_toNat_le, hn]
  constructor
  · change 48 ≤ _
    omega
  · change _ ≤ 57
    omega

lemma isdigit_of_mem_ltoaLoop {fuel v : ℕ} {c : UInt8} (h : c ∈ ltoaLoop fuel v) : isdigit c := by
  induction fuel generalizing v with
  | zero => exact absurd h (by simp [ltoaLoop])
  | succ fuel ih =>
    rw [ltoaLoop] at h
    rcases List.mem_cons.mp h with rfl | h
    · exact (isdigit_digit v).1
    · split at h
      · exact ih h
      · exact absurd h (by simp)

lemma isdigit_of_mem_ltoa {v : ℕ} {c : UInt8} (h : c ∈ ltoa v) : isdigit c :=
  isdigit_of_mem_ltoaLoop (List.mem_reverse.mp h)

lemma ltoa_ne_nil (v : ℕ) : ltoa v ≠ [] := by simp [ltoa, ltoaLoop]

lemma ofDigits_append_singleton (l : List UInt8) (c : UInt8) :
    ofDigits (l ++ [c]) = 10 * ofDigits l + (c.toNat - 48) := by
  simp [ofDigits]

lemma ofDigits_ltoaLoop {fuel v : ℕ} (h : v < fuel) : ofDigits (ltoaLoop fuel v).reverse = v := by
  induction fuel generalizing v with
  | zero => omega
  | succ fuel ih =>
    rw [ltoaLoop, List.reverse_cons, ofDigits_append_singleton, (isdigit_digit v).2]
    split
    · rw [ih (by omega)]
      omega
    · have : ofDigits (List.reverse []) = 0 := rfl
      omega

lemma ofDigits_ltoa (v : ℕ) : ofDigits (ltoa v) = v := ofDigits_ltoaLoop (Nat.lt_succ_self v)

lemma length_ltoaLoop_le {fuel v k : ℕ} (h : v < 10 ^ (k + 1)) :
    (ltoaLoop fuel v).length ≤ k + 1 := by
  induction fuel generalizing v k with
  | zero => simp [ltoaLoop]
  | succ fuel ih =>
    rw [ltoaLoop, List.length_cons]
    split
    · cases k with
      | zero => omega
      | succ k =>
        have := ih (v := v / 10) (k := k) (by rw [pow_succ] at h; omega)
        omega
    · simp

lemma length_ltoa_le {v : ℕ} (h : v < 2 ^ 63) : (ltoa v).length ≤ 19 := by
  rw [ltoa, List.length_reverse]
  exact length_ltoaLoop_le (k := 18) (by omega)

/-! ### Pieces -/

/-- A part as it stands in the text. -/
structure Piece where
  part : Part
  digits : List UInt8
  many : Bool

def Piece.text (a : Piece) : List UInt8 :=
  a.digits ++ (a.part.word ++ if a.many then [0x73] else [])

def render (l : List Piece) : List UInt8 := l.flatMap Piece.text

/-- What the blocks leave in the text; after a part that is one they write behind its end. -/
def shown : Bool → List (Part × ℕ) → List Piece
  | _, [] => []
  | behind, (p, v) :: l =>
    if v = 0 then shown behind l
    else if v > 1 then ⟨p, if behind then [] else ltoa v, true⟩ :: shown false l
    else if behind then shown true l
    else ⟨p, [0x31], false⟩ :: shown true l

/-- The string up to its end, with the offset there or, after a part that is one, behind it. -/
def Holds (behind : Bool) (text : List UInt8) (s : Out) : Prop :=
  if behind then text.length < s.offset ∧ ∃ rest, s.string = text ++ 0 :: rest
  else s.offset = text.length ∧ ∃ rest, s.string = text ++ rest ∧ (text ≠ [] → rest.head? = some 0)

lemma strcpyAt_length (text rest new : List UInt8) :
    ∃ rest', strcpyAt (text ++ rest) text.length new = text ++ new ++ 0 :: rest' :=
  ⟨_, by rw [strcpyAt, List.take_left]⟩

lemma strcpyAt_behind {text : List UInt8} {offset : ℕ} (h : text.length < offset)
    (rest new : List UInt8) :
    ∃ rest', strcpyAt (text ++ 0 :: rest) offset new = text ++ 0 :: rest' := by
  obtain ⟨k, rfl⟩ := Nat.exists_eq_add_of_lt h
  rw [strcpyAt, add_assoc, List.take_length_add_append, List.take_succ_cons]
  simp only [List.append_assoc, List.cons_append]
  exact ⟨_, rfl⟩

lemma zero_notMem_digits {ds : List UInt8} (h : ∀ c ∈ ds, isdigit c) : 0 ∉ ds :=
  fun h0 => absurd (h 0 h0) (by decide)

lemma zero_notMem_word (p : Part) : 0 ∉ p.word := by cases p <;> decide

lemma word_length (p : Part) : p.word.length + 2 = p.skip := by cases p <;> rfl

section Writing

variable {behind : Bool} {text : List UInt8} {s : Out} {p : Part} {v : ℕ}

lemma Holds.strcpyAt (h : Holds behind text s) (new : List UInt8) :
    ∃ rest, strcpyAt s.string s.offset new =
      (if behind then text else text ++ new) ++ 0 :: rest := by
  cases behind with
  | true =>
    obtain ⟨hlt, rest, hrest⟩ := h
    rw [hrest]
    exact strcpyAt_behind hlt rest new
  | false =>
    obtain ⟨hoffset, rest, hrest, -⟩ := h
    rw [hrest, hoffset]
    exact strcpyAt_length text rest new

/-- A part that is more than one: its digits are lost behind the end, its word is not. -/
lemma Holds.many (h : Holds behind text s) (h0 : 0 ∉ text) (hv : v > 1) :
    Holds false (text ++ (Piece.mk p (if behind then [] else ltoa v) true).text) (part p v s) := by
  obtain ⟨rest, hrest⟩ := h.strcpyAt (ltoa v)
  have hshown : (if behind then text else text ++ ltoa v) =
      text ++ if behind then [] else ltoa v := by
    cases behind <;> simp
  have hnot : 0 ∉ text ++ if behind then [] else ltoa v := by
    rw [List.mem_append, not_or]
    refine ⟨h0, ?_⟩
    split
    · simp
    · exact zero_notMem_digits fun c => isdigit_of_mem_ltoa
  rw [hshown] at hrest
  obtain ⟨rest', hrest'⟩ := strcpyAt_length (text ++ if behind then [] else ltoa v) (0 :: rest)
    (p.word ++ [0x73])
  have hne : v ≠ 0 := by omega
  rw [part, if_neg hne, if_pos hv, hrest]
  dsimp only
  rw [cstr_append_nul hnot, hrest']
  refine ⟨?_, 0 :: rest', by simp [Piece.text], fun _ => rfl⟩
  simp [Piece.text]
  omega

/-- A part that is one moves the offset behind the end. -/
lemma Holds.one (h : Holds behind text s) :
    Holds true (if behind then text else text ++ (Piece.mk p [0x31] false).text) (part p 1 s) := by
  obtain ⟨rest, hrest⟩ := h.strcpyAt (0x31 :: p.word)
  have hskip := word_length p
  rw [part, if_neg one_ne_zero, if_neg (lt_irrefl 1), hrest]
  cases behind with
  | true =>
    obtain ⟨hlt, -⟩ := h
    exact ⟨by simp only [if_true]; omega, rest, rfl⟩
  | false =>
    obtain ⟨hoffset, -⟩ := h
    refine ⟨?_, rest, by simp [Piece.text]⟩
    simp [Piece.text, hoffset]
    omega

/-- **The blocks** leave the shown pieces behind the text. -/
lemma Holds.parts (h : Holds behind text s) (h0 : 0 ∉ text) (split : Part → ℕ) (l : List Part) :
    ∃ behind', Holds behind' (text ++ render (shown behind (l.map fun p => (p, split p))))
      (l.foldl (fun s p => part p (split p) s) s) ∧
      0 ∉ text ++ render (shown behind (l.map fun p => (p, split p))) := by
  induction l generalizing behind text s with
  | nil => exact ⟨behind, by simpa [shown, render] using h, by simpa [shown, render] using h0⟩
  | cons p l ih =>
    have hword : 0 ∉ p.word := zero_notMem_word p
    rw [List.map_cons, List.foldl_cons, shown]
    by_cases hv : split p = 0
    · rw [if_pos hv, part, if_pos hv]
      exact ih h h0
    by_cases hv' : split p > 1
    · have hmany := h.many (p := p) h0 hv'
      have hnot : 0 ∉ text ++ (Piece.mk p (if behind then [] else ltoa (split p)) true).text := by
        have hdigits : 0 ∉ if behind then [] else ltoa (split p) := by
          split
          · simp
          · exact zero_notMem_digits fun c => isdigit_of_mem_ltoa
        simp [Piece.text, h0, hword, hdigits]
      obtain ⟨behind', hl⟩ := ih hmany hnot
      rw [if_neg hv, if_pos hv']
      refine ⟨behind', ?_⟩
      rw [render, List.flatMap_cons, ← List.append_assoc]
      exact hl
    · have hone : split p = 1 := by omega
      have h' := h.one (p := p)
      rw [hone, if_neg one_ne_zero, if_neg (lt_irrefl 1)]
      cases behind with
      | true => exact ih h' h0
      | false =>
        have hnot : 0 ∉ text ++ (Piece.mk p [0x31] false).text := by simp [Piece.text, h0, hword]
        obtain ⟨behind', hl⟩ := ih h' hnot
        refine ⟨behind', ?_⟩
        rw [if_neg Bool.false_ne_true, render, List.flatMap_cons, ← List.append_assoc]
        exact hl

end Writing

/-! ### The scan over pieces -/

section Reading

variable {string rest ds : List UInt8} {s : Scan} {p : Part} {v : Part → ℤ} {a : Piece}
  {l : List Piece}

lemma scan_skip (skipped rest : List UInt8) :
    scan string skipped.length s (skipped ++ rest) = scan string 0 s rest := by
  induction skipped with
  | nil => rfl
  | cons c skipped ih => rw [List.length_cons, List.cons_append, scan, ih]

lemma unitOf_of_isdigit {c : UInt8} (h : isdigit c) : unitOf c = none := by
  have hne (d : UInt8) (hd : isdigit d = false) : c ≠ d := fun h' => by simp [h', hd] at h
  have h1 := hne 0x64 rfl
  have h2 := hne 0x44 rfl
  have h3 := hne 0x68 rfl
  have h4 := hne 0x48 rfl
  have h5 := hne 0x6D rfl
  have h6 := hne 0x4D rfl
  have h7 := hne 0x73 rfl
  have h8 := hne 0x53 rfl
  simp [unitOf, h1, h2, h3, h4, h5, h6, h7, h8]

lemma scan_digits (h : ∀ c ∈ ds, isdigit c) (rest : List UInt8) :
    scan string 0 s (ds ++ rest) = scan string 0 { s with text := s.text ++ ds } rest := by
  induction ds generalizing s with
  | nil => simp
  | cons c ds ih =>
    rw [List.forall_mem_cons] at h
    rw [List.cons_append, scan, unitOf_of_isdigit h.1]
    dsimp only
    rw [if_pos (.inl h.1), ih h.2]
    simp

lemma word_cons (p : Part) : ∃ c w, p.word = c :: w ∧ unitOf c = some p := by
  cases p <;> exact ⟨_, _, rfl, rfl⟩

lemma scan_word (h : s.values p = -1) (rest : List UInt8) :
    scan string 0 s (p.word ++ rest) =
      scan string 0 (s.read p) (if rest.headD 0 = 0x73 ∨ rest.headD 0 = 0x53 then rest.tail
        else rest) := by
  obtain ⟨c, w, hword, hunit⟩ := word_cons p
  have hcase : casePrefix p.word (c :: (w ++ rest)) = true := by
    rw [← List.cons_append, ← hword]
    exact casePrefix_append p.word rest
  rw [hword, List.cons_append, scan, hunit]
  dsimp only
  rw [if_neg (not_not.mpr h), if_pos hcase, hword, List.length_cons, Nat.add_sub_cancel,
    List.drop_left]
  split
  · cases rest with
    | nil => exact absurd ‹_› (by decide)
    | cons x rest =>
      rw [List.tail_cons, ← scan_skip (w ++ [x]) rest, List.length_append, List.append_assoc]
      rfl
  · exact scan_skip w rest

/-- The value of a piece is taken. -/
def Piece.read (v : Part → ℤ) (a : Piece) : Part → ℤ := Function.update v a.part (atol a.digits)

/-- After a part that is one the next has digits. -/
def Plain (l : List Piece) : Prop := l.IsChain fun a b => a.many = true ∨ b.digits ≠ []

lemma head_of_word (h : p.word.headD 0 = 0x73 ∨ p.word.headD 0 = 0x53) : p = .second := by
  cases p with
  | second => rfl
  | day | hour | minute => exact absurd h (by decide)

/-- Only a second without digits is taken for the plural of a part that is one. -/
lemma head_of_render (h : (render l).headD 0 = 0x73 ∨ (render l).headD 0 = 0x53)
    (hdigits : ∀ a ∈ l, ∀ c ∈ a.digits, isdigit c) :
    ∃ b l' rest, l = b :: l' ∧ b.digits = [] ∧ (render l).tail = 0x65 :: rest := by
  cases l with
  | nil => exact absurd h (by decide)
  | cons b l =>
    cases hds : b.digits with
    | nil =>
      obtain ⟨c, w, hword, -⟩ := word_cons b.part
      have hsecond : b.part = .second := by
        apply head_of_word
        simpa [render, Piece.text, hds, hword] using h
      have htext : (render (b :: l)).tail = 0x65 :: ([0x63, 0x6F, 0x6E, 0x64] ++
          (if b.many then [0x73] else []) ++ render l) := by
        simp [render, Piece.text, hds, hsecond, Part.word]
      exact ⟨b, l, _, rfl, hds, htext⟩
    | cons c ds =>
      have hc : isdigit c := hdigits b List.mem_cons_self c (hds ▸ List.mem_cons_self)
      rw [render, List.flatMap_cons, Piece.text, hds] at h
      rcases h with rfl | rfl
      · exact absurd hc (by decide)
      · exact absurd hc (by decide)

/-- **The scan** takes the value of each piece, or fails where a part is taken for a plural. -/
lemma scan_render (string : List UInt8) (hdigits : ∀ a ∈ l, ∀ c ∈ a.digits, isdigit c) (hparts : (l.map Piece.part).Nodup)
    (hv : ∀ a ∈ l, v a.part = -1) :
    scan string 0 ⟨[], v⟩ (render l) = some (finish string (l.foldl Piece.read v)) ∨
      scan string 0 ⟨[], v⟩ (render l) = some (-1) ∧ ¬ Plain l := by
  induction l generalizing v with
  | nil => exact .inl (by simp [render, scan])
  | cons a l ih =>
    rw [List.map_cons, List.nodup_cons] at hparts
    have hfresh : ∀ b ∈ l, a.read v b.part = -1 := by
      intro b hb
      have hne : b.part ≠ a.part := fun h => hparts.1 (h ▸ List.mem_map_of_mem hb)
      rw [Piece.read, Function.update_of_ne hne]
      exact hv b (List.mem_cons_of_mem _ hb)
    have ih := ih (fun b hb => hdigits b (List.mem_cons_of_mem _ hb)) hparts.2 hfresh
    have hplain : ¬ Plain l → ¬ Plain (a :: l) := fun h h' => h h'.tail
    have hread : Scan.read ⟨a.digits, v⟩ a.part = ⟨[], a.read v⟩ := rfl
    rw [render, List.flatMap_cons, Piece.text, List.append_assoc,
      scan_digits (hdigits a List.mem_cons_self), List.append_assoc, List.nil_append,
      scan_word (hv a List.mem_cons_self), hread, List.foldl_cons]
    cases hmany : a.many with
    | true => exact ih.imp_right fun h => ⟨h.1, hplain h.2⟩
    | false =>
      rw [if_neg Bool.false_ne_true, List.nil_append]
      split
      · have hl : ∀ b ∈ l, ∀ c ∈ b.digits, isdigit c := fun b hb =>
          hdigits b (List.mem_cons_of_mem _ hb)
        obtain ⟨b, l', rest, rfl, hb, htail⟩ := head_of_render ‹_› hl
        refine .inr ⟨?_, fun h => ?_⟩
        · rw [render] at htail
          rw [htail]
          rfl
        · rcases h.rel with h | h
          · exact absurd h (by simp [hmany])
          · exact h hb
      · exact ih.imp_right fun h => ⟨h.1, hplain h.2⟩

end Reading

/-! ### Sums -/

def need (l : List (Part × ℕ)) : ℕ := (l.map fun a => a.1.weight * a.2).sum

def value (l : List Piece) : ℕ := (l.map fun a => a.part.weight * ofDigits a.digits).sum

lemma weight_pos (p : Part) : 0 < p.weight := by cases p <;> decide

lemma total_update {v : Part → ℤ} {p : Part} (h : v p = -1) {x : ℤ} (hx : 0 ≤ x) :
    total (Function.update v p x) = total v + p.weight * x := by
  have hx' : x ≠ -1 := by omega
  cases p <;> simp [total, Part.all, Function.update_apply, h, hx'] <;> ring

section Sums

variable {l : List Piece} {v : Part → ℤ} {p : Part} {m : List (Part × ℕ)} {behind : Bool}

/-- The digits of a piece, which are those of a `long`. -/
structure Piece.Ok (a : Piece) : Prop where
  digits : ∀ c ∈ a.digits, isdigit c
  small : ofDigits a.digits < 2 ^ 63
  length : a.digits.length ≤ 19

lemma Piece.Ok.atol {a : Piece} (h : a.Ok) : atol a.digits = ofDigits a.digits :=
  strtol_digits h.digits h.small

lemma total_read (hok : ∀ a ∈ l, a.Ok) (hparts : (l.map Piece.part).Nodup)
    (hv : ∀ a ∈ l, v a.part = -1) : total (l.foldl Piece.read v) = total v + value l := by
  induction l generalizing v with
  | nil => simp [value]
  | cons a l ih =>
    rw [List.forall_mem_cons] at hok
    rw [List.map_cons, List.nodup_cons] at hparts
    have hfresh : ∀ b ∈ l, a.read v b.part = -1 := by
      intro b hb
      have hne : b.part ≠ a.part := fun h => hparts.1 (h ▸ List.mem_map_of_mem hb)
      rw [Piece.read, Function.update_of_ne hne]
      exact hv b (List.mem_cons_of_mem _ hb)
    rw [List.foldl_cons, ih hok.2 hparts.2 hfresh, Piece.read, hok.1.atol,
      total_update (hv a List.mem_cons_self) (Int.natCast_nonneg _), value, value, List.map_cons,
      List.sum_cons]
    push_cast
    ring

lemma read_ne (hok : ∀ a ∈ l, a.Ok) (h : v p ≠ -1) : l.foldl Piece.read v p ≠ -1 := by
  induction l generalizing v with
  | nil => exact h
  | cons a l ih =>
    rw [List.forall_mem_cons] at hok
    refine ih hok.2 ?_
    by_cases hp : p = a.part
    · rw [hp, Piece.read, Function.update_self, hok.1.atol]
      omega
    · rwa [Piece.read, Function.update_of_ne hp]

lemma finish_read {string : List UInt8} (hl : l ≠ []) (hok : ∀ a ∈ l, a.Ok)
    (hparts : (l.map Piece.part).Nodup) (hvalue : value l < 2 ^ 63) :
    finish string (l.foldl Piece.read fun _ => -1) = value l := by
  have htotal : total (fun _ => -1) = 0 := by simp [total, Part.all]
  have hsome : ∃ p, l.foldl Piece.read (fun _ => -1) p ≠ -1 := by
    obtain ⟨a, l, rfl⟩ := List.exists_cons_of_ne_nil hl
    rw [List.forall_mem_cons] at hok
    refine ⟨a.part, ?_⟩
    rw [List.foldl_cons]
    refine read_ne hok.2 ?_
    rw [Piece.read, Function.update_self, hok.1.atol]
    omega
  rw [finish, if_neg, total_read hok hparts fun _ _ => rfl, htotal, zero_add]
  · exact Int.bmod_eq_of_le (by omega) (by omega)
  · rintro ⟨hd, hh, hm, hs⟩
    obtain ⟨p, hp⟩ := hsome
    cases p
    · exact hp hd
    · exact hp hh
    · exact hp hm
    · exact hp hs

lemma shown_sublist (behind : Bool) (m : List (Part × ℕ)) :
    ((shown behind m).map Piece.part).Sublist (m.map Prod.fst) := by
  induction m generalizing behind with
  | nil => simp [shown]
  | cons a m ih =>
    rw [shown, List.map_cons]
    split
    · exact (ih _).cons _
    · split
      · exact (ih _).cons_cons _
      · split
        · exact (ih _).cons _
        · exact (ih _).cons_cons _

lemma shown_ok (hm : ∀ a ∈ m, a.2 < 2 ^ 63) : ∀ a ∈ shown behind m, a.Ok := by
  induction m generalizing behind with
  | nil => simp [shown]
  | cons a m ih =>
    rw [List.forall_mem_cons] at hm
    have hnil : Piece.Ok ⟨a.1, [], true⟩ := ⟨by simp, by simp [ofDigits], by simp⟩
    have hmany : Piece.Ok ⟨a.1, ltoa a.2, true⟩ :=
      ⟨fun c => isdigit_of_mem_ltoa, by rw [ofDigits_ltoa]; exact hm.1, length_ltoa_le hm.1⟩
    have hone : Piece.Ok ⟨a.1, [0x31], false⟩ :=
      ⟨List.forall_mem_singleton.mpr (by decide), by simp [ofDigits], by simp⟩
    rw [shown]
    split
    · exact ih hm.2
    · split
      · refine List.forall_mem_cons.mpr ⟨?_, ih hm.2⟩
        cases behind with
        | true => exact hnil
        | false => exact hmany
      · split
        · exact ih hm.2
        · exact List.forall_mem_cons.mpr ⟨hone, ih hm.2⟩

lemma value_cons (a : Piece) (l : List Piece) :
    value (a :: l) = a.part.weight * ofDigits a.digits + value l := by simp [value]

lemma need_cons (a : Part × ℕ) (m : List (Part × ℕ)) :
    need (a :: m) = a.1.weight * a.2 + need m := by simp [need]

lemma value_shown_le (behind : Bool) (m : List (Part × ℕ)) : value (shown behind m) ≤ need m := by
  induction m generalizing behind with
  | nil => simp [shown, value]
  | cons a m ih =>
    have hlost : ofDigits [] = 0 := rfl
    have hone : ofDigits [0x31] = 1 := rfl
    rw [shown, need_cons]
    split
    · exact (ih behind).trans (Nat.le_add_left _ _)
    · split
      · rw [value_cons]
        refine Nat.add_le_add (Nat.mul_le_mul_left _ ?_) (ih _)
        cases behind with
        | true => exact Nat.zero_le _
        | false => exact (ofDigits_ltoa a.2).le
      · split
        · exact (ih true).trans (Nat.le_add_left _ _)
        · rw [value_cons, hone]
          exact Nat.add_le_add (Nat.mul_le_mul_left _ (by omega)) (ih _)

/-- Behind the end something is lost unless nothing is left to write. -/
lemma shown_behind (m : List (Part × ℕ)) :
    value (shown true m) < need m ∨ (∀ a ∈ m, a.2 = 0) ∧ shown true m = [] := by
  induction m with
  | nil => exact .inr ⟨by simp, rfl⟩
  | cons a m ih =>
    have hpos := weight_pos a.1
    rw [shown, need_cons]
    by_cases h0 : a.2 = 0
    · rw [if_pos h0, h0, Nat.mul_zero, Nat.zero_add]
      exact ih.imp_right fun h => ⟨List.forall_mem_cons.mpr ⟨h0, h.1⟩, h.2⟩
    · have hlost : 0 < a.1.weight * a.2 := Nat.mul_pos hpos (Nat.pos_of_ne_zero h0)
      rw [if_neg h0]
      split
      · have hle := value_shown_le false m
        have hnil : ofDigits [] = 0 := rfl
        rw [if_pos rfl, value_cons, hnil]
        exact .inl (by omega)
      · have hle := value_shown_le true m
        rw [if_pos rfl]
        exact .inl (by omega)

/-- No part that is one is followed by another. -/
def Good (m : List (Part × ℕ)) : Prop := m.Pairwise fun a b => a.2 = 1 → b.2 = 0

lemma shown_good (h : Good m) :
    value (shown false m) = need m ∧ ∀ a ∈ shown false m, a.digits ≠ [] := by
  induction m with
  | nil => exact ⟨rfl, by simp [shown]⟩
  | cons a m ih =>
    obtain ⟨hhead, htail⟩ := List.pairwise_cons.mp h
    obtain ⟨hvalue, hdigits⟩ := ih htail
    rw [shown, need_cons]
    by_cases h0 : a.2 = 0
    · rw [if_pos h0, h0, Nat.mul_zero, Nat.zero_add]
      exact ⟨hvalue, hdigits⟩
    · rw [if_neg h0, if_neg Bool.false_ne_true, if_neg Bool.false_ne_true]
      split
      · refine ⟨?_, List.forall_mem_cons.mpr ⟨ltoa_ne_nil _, hdigits⟩⟩
        rw [value_cons, ofDigits_ltoa, hvalue]
      · have hone : a.2 = 1 := by omega
        have hzero : ∀ b ∈ m, b.2 = 0 := fun b hb => hhead b hb hone
        have hneed : need m = 0 := by
          rw [need, List.sum_eq_zero_iff]
          intro x hx
          obtain ⟨b, hb, rfl⟩ := List.mem_map.mp hx
          rw [hzero b hb, Nat.mul_zero]
        rcases shown_behind m with hlt | ⟨-, hnil⟩
        · omega
        · rw [hnil]
          refine ⟨?_, List.forall_mem_cons.mpr ⟨by simp, by simp⟩⟩
          rw [value_cons, hneed, hone]
          rfl

lemma need_of_shown_nil (h : shown false m = []) : need m = 0 := by
  induction m with
  | nil => rfl
  | cons a m ih =>
    rw [shown] at h
    split at h
    · rw [need_cons, ih h, ‹a.2 = 0›, Nat.mul_zero]
    · split at h
      · exact absurd h (by simp)
      · exact absurd h (by simp)

lemma shown_bad (h : ¬ Good m) : value (shown false m) < need m := by
  induction m with
  | nil => exact absurd List.Pairwise.nil h
  | cons a m ih =>
    rw [shown, need_cons]
    by_cases hm : Good m
    · have hhead : a.2 = 1 ∧ ∃ b ∈ m, b.2 ≠ 0 := by
        by_contra hno
        refine h (List.pairwise_cons.mpr ⟨fun b hb hone => ?_, hm⟩)
        by_contra hb0
        exact hno ⟨hone, b, hb, hb0⟩
      obtain ⟨hone, b, hb, hb0⟩ := hhead
      have hlt : value (shown true m) < need m :=
        (shown_behind m).resolve_right fun hz => hb0 (hz.1 b hb)
      rw [hone, if_neg one_ne_zero, if_neg (lt_irrefl 1), if_neg Bool.false_ne_true, value_cons]
      exact Nat.add_lt_add_of_le_of_lt le_rfl hlt
    · have hlt := ih hm
      split
      · omega
      · split
        · rw [value_cons, if_neg Bool.false_ne_true, ofDigits_ltoa]
          exact Nat.add_lt_add_of_le_of_lt le_rfl hlt
        · have hone : ofDigits [0x31] = 1 := rfl
          have ha : a.2 = 1 := by omega
          have hlt' : value (shown true m) < need m := by
            rcases shown_behind m with hlt' | ⟨hz, -⟩
            · exact hlt'
            · exact absurd (List.pairwise_iff_getElem.mpr fun i j _ hj _ _ =>
                hz _ (List.getElem_mem hj)) hm
          rw [if_neg Bool.false_ne_true, value_cons, hone, ha]
          exact Nat.add_lt_add_of_le_of_lt le_rfl hlt'

end Sums

/-! ### Both ways -/

/-- Days, hours, minutes and seconds. -/
def counts (n : ℕ) : List ℕ := [n / 86400, n % 86400 / 3600, n % 3600 / 60, n % 60]

lemma split_counts (n : ℕ) : Part.all.map (split n) = counts n := by
  unfold split
  simp only [Part.all, counts, List.map_cons, List.map_nil, List.cons.injEq, and_true]
  split
  · refine ⟨rfl, rfl, ?_, ?_⟩ <;> dsimp only <;> omega
  · split
    · refine ⟨?_, ?_, ?_, ?_⟩ <;> dsimp only <;> omega
    · split
      · refine ⟨?_, ?_, ?_, ?_⟩ <;> dsimp only <;> omega
      · refine ⟨?_, ?_, ?_, ?_⟩ <;> dsimp only <;> omega

/-- The parts of an interval with their counts. -/
def parts (n : ℕ) : List (Part × ℕ) := Part.all.map fun p => (p, split n p)

lemma need_parts (n : ℕ) : need (parts n) = n := by
  have h := split_counts n
  simp only [Part.all, counts, List.map_cons, List.map_nil, List.cons.injEq, and_true] at h
  obtain ⟨hd, hh, hm, hs⟩ := h
  simp only [need, parts, Part.all, List.map_cons, List.map_nil, List.sum_cons, List.sum_nil, hd, hh,
    hm, hs, Part.weight]
  omega

lemma good_parts (n : ℕ) : Good (parts n) ↔ (counts n).Pairwise fun a b => a = 1 → b = 0 := by
  rw [← split_counts, Good, parts, List.pairwise_map, List.pairwise_map]

lemma parts_lt {n : ℕ} (h : n < 2 ^ 63) : ∀ a ∈ parts n, a.2 < 2 ^ 63 := by
  intro a ha
  have hle : a.1.weight * a.2 ≤ need (parts n) :=
    List.single_le_sum (fun _ _ => Nat.zero_le _) _ (List.mem_map_of_mem ha)
  rw [need_parts] at hle
  have hmul := Nat.le_mul_of_pos_left a.2 (weight_pos a.1)
  omega

lemma length_render_le {l : List Piece} (hok : ∀ a ∈ l, a.Ok) :
    (render l).length ≤ 26 * l.length := by
  induction l with
  | nil => simp [render]
  | cons a l ih =>
    rw [List.forall_mem_cons] at hok
    have ih := ih hok.2
    have hlen := hok.1.length
    have hword : a.part.word.length ≤ 6 := by cases a.part <;> decide
    have hmany : (if a.many then [(0x73 : UInt8)] else []).length ≤ 1 := by split <;> simp
    rw [render, List.flatMap_cons, ← render, List.length_append, Piece.text, List.length_append,
      List.length_append, List.length_cons]
    omega

/-- The text of an interval, however the buffer was filled before. -/
lemma cstr_itvltoa {n : ℕ} (hn : n ≠ 0) (buffer : List UInt8) :
    cstr (itvltoa n buffer) = render (shown false (parts n)) ∧ render (shown false (parts n)) ≠ [] := by
  have hstart : Holds false [] ⟨buffer, 0⟩ := ⟨rfl, buffer, rfl, fun h => absurd rfl h⟩
  obtain ⟨behind, hholds, h0⟩ := hstart.parts (by simp) (split n) Part.all
  rw [List.nil_append] at hholds h0
  have hne : render (shown false (parts n)) ≠ [] := by
    intro hnil
    have hshown : shown false (parts n) = [] := by
      cases hl : shown false (parts n) with
      | nil => rfl
      | cons a l =>
        obtain ⟨c, w, hword, -⟩ := word_cons a.part
        rw [hl, render, List.flatMap_cons, Piece.text, hword] at hnil
        simp at hnil
    exact hn ((need_parts n).symm.trans (need_of_shown_nil hshown))
  refine ⟨?_, hne⟩
  rw [itvltoa, if_neg (by exact_mod_cast hn), Int.natAbs_natCast]
  cases behind with
  | true =>
    obtain ⟨-, rest, hrest⟩ := hholds
    rw [hrest]
    exact cstr_append_nul h0 rest
  | false =>
    obtain ⟨-, rest, hrest, hend⟩ := hholds
    obtain ⟨rest', rfl⟩ : ∃ rest', rest = 0 :: rest' := by
      have hhead := hend hne
      cases rest with
      | nil => exact absurd hhead (by simp)
      | cons c rest => exact ⟨rest, by rw [Option.some.inj hhead]⟩
    rw [hrest]
    exact cstr_append_nul h0 rest'

/-- **The round trip**: an interval is read back as it was exactly when no count of its days, hours
and minutes that is one is followed by a count that is not zero. -/
theorem atoitvl_itvltoa (n : ℕ) (h : n < 2 ^ 63) (buffer : List UInt8) :
    atoitvl (cstr (itvltoa n buffer)) = some (n : ℤ) ↔
      (counts n).Pairwise fun a b => a = 1 → b = 0 := by
  rw [← good_parts]
  by_cases hn : n = 0
  · subst hn
    have htext : cstr (itvltoa (0 : ℕ) buffer) = 0x30 :: Part.second.word :=
      cstr_append_nul (s := 0x30 :: Part.second.word) (by decide) _
    rw [htext, good_parts]
    exact iff_of_true rfl (by decide)
  obtain ⟨htext, hne⟩ := cstr_itvltoa hn buffer
  have hok : ∀ a ∈ shown false (parts n), a.Ok := shown_ok (parts_lt h)
  have hsub := shown_sublist false (parts n)
  have hnodup : ((shown false (parts n)).map Piece.part).Nodup :=
    hsub.nodup (by simp [parts, Part.all])
  have hlen : ¬ (render (shown false (parts n))).length > 1024 := by
    have hcount : (shown false (parts n)).length ≤ 4 := by
      simpa [parts, Part.all] using hsub.length_le
    have := length_render_le hok
    omega
  have hvalue : value (shown false (parts n)) ≤ n :=
    (value_shown_le false (parts n)).trans (need_parts n).le
  have hscan := scan_render (render (shown false (parts n))) (fun a ha => (hok a ha).digits) hnodup
    (v := fun _ => -1) fun _ _ => rfl
  have hnil : shown false (parts n) ≠ [] := fun h => hne (by rw [h]; rfl)
  rw [finish_read hnil hok hnodup (by omega)] at hscan
  rw [htext, atoitvl, if_neg hlen]
  constructor
  · intro hback
    by_contra hbad
    have hlt := shown_bad hbad
    rw [need_parts] at hlt
    rcases hscan with hs | ⟨hs, -⟩
    · rw [hs, Option.some_inj] at hback
      omega
    · rw [hs, Option.some_inj] at hback
      omega
  · intro hgood
    obtain ⟨heq, hdigits⟩ := shown_good hgood
    have hplain : Plain (shown false (parts n)) :=
      List.isChain_iff_getElem.mpr fun i hi => .inr (hdigits _ (List.getElem_mem hi))
    rw [hscan.resolve_right fun hs => hs.2 hplain, heq, need_parts]

theorem atoitvl_itvltoa_two_hours :
    atoitvl (cstr (itvltoa (7205 : ℕ) [])) = some ((7205 : ℕ) : ℤ) ↔
      (counts 7205).Pairwise fun a b => a = 1 → b = 0 :=
  atoitvl_itvltoa 7205 (by norm_num) []

/-- An hour and five minutes come back as an hour. -/
theorem atoitvl_one_hour : atoitvl (cstr (itvltoa 3900 [])) ≠ some 3900 := by decide +kernel

end SteepSystem.Texts.Intervals
