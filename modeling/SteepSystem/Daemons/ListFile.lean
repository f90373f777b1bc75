import SteepSystem.Lib.CStrings

/-!
The list file of the timer: what `LIBRARY/common/list_file.c` reads with the format
`%d%l%s:512`, and the lines that `SYSTEM_ADMIN/timer/main.c` writes.
-/

namespace SteepSystem.Daemons.ListFile

open SteepSystem.Lib.CStrings

/-- `TIMER`, which is also an item of the list. -/
structure Timer where
  tId : ℤ
  execTime : ℤ
  command : List UInt8
  deriving DecidableEq

/-! ### Reading -/

/-- What `fgets` returns, call by call, with a buffer of `MAX_LINE` bytes; `line` is what the
call has read so far, last byte first. -/
def fgets (line : List UInt8) : List UInt8 → List (List UInt8)
  | [] => if line = [] then [] else [line.reverse]
  | c :: file =>
    if c = 10 ∨ line.length + 1 = 1023 then (c :: line).reverse :: fgets [] file
    else fgets (c :: line) file

def isBlank (c : UInt8) : Bool := c == 32 || c == 9

def isStop (c : UInt8) : Bool := c == 35 || c == 13 || c == 10

def isDelim (c : UInt8) : Bool := isBlank c || isStop c

/-- At the end of the string, of the line or before a comment. -/
def atEnd : List UInt8 → Bool
  | [] => true
  | c :: _ => isStop c

/-- Trim blanks; there has to be something behind them. -/
def trim (ptr : List UInt8) : Option (List UInt8) :=
  if atEnd (ptr.dropWhile isBlank) then none else some (ptr.dropWhile isBlank)

/-- Copy up to a delimiter, and go on behind it: the field is not the last one. -/
def field (ptr : List UInt8) : Option (List UInt8 × List UInt8) :=
  let rest := ptr.dropWhile fun c => !isDelim c
  if atEnd rest then none else some (ptr.takeWhile fun c => !isDelim c, rest)

def isEscaped (c : UInt8) : Bool := c == 32 || c == 92 || c == 9 || c == 35

/-- The loop for a string, in which a backslash stands before a character that would end it. -/
def unescape : List UInt8 → Option (List UInt8 × List UInt8)
  | [] => some ([], [])
  | 92 :: c :: ptr =>
    if isEscaped c then (unescape ptr).map fun r => (c :: r.1, r.2) else none
  | [92] => none
  | c :: ptr =>
    if isDelim c then some ([], c :: ptr) else (unescape ptr).map fun r => (c :: r.1, r.2)

def parseLine (line : List UInt8) : Option Timer := do
  let ptr ← trim line
  let (tId, ptr) ← field ptr
  let ptr ← trim ptr
  let (execTime, ptr) ← field ptr
  let ptr ← trim ptr
  let (command, ptr) ← unescape ptr
  if atEnd ptr then some ⟨atoi tId, atol execTime, command.take 511⟩ else none

/-- An empty line or a comment. -/
def isSkipped (line : List UInt8) : Bool :=
  match line with
  | c :: _ => isStop c
  | [] => false

/-- `list_file_construct_list`. -/
def listItems (file : List UInt8) : List Timer :=
  (fgets [] file).filterMap fun line => if isSkipped line then none else parseLine (cstr line)

/-! ### Writing -/

def encodeLine (command : List UInt8) : List UInt8 :=
  command.flatMap fun c => if isEscaped c then [92, c] else [c]

/-- The line of a timer, without its end. -/
def format (t : Timer) : List UInt8 :=
  formatInt t.tId ++ 9 :: formatInt t.execTime ++ 9 :: encodeLine t.command

/-! ### What is Written is Read -/

/-- The timer stands on one line of the file. -/
structure Writable (t : Timer) : Prop where
  tId_nonneg : 0 ≤ t.tId
  tId_lt : t.tId < 2 ^ 31
  execTime_nonneg : 0 ≤ t.execTime
  execTime_lt : t.execTime < 2 ^ 63
  command_ne : t.command ≠ []
  command_length : t.command.length < 512
  plain : ∀ c ∈ t.command, c ≠ 0 ∧ c ≠ 10 ∧ c ≠ 13
  fits : (format t).length < 1024

lemma isDelim_of_isdigit {c : UInt8} (h : isdigit c) : isDelim c = false := by
  have hc : 48 ≤ c.toNat := by
    simp only [isdigit, Bool.and_eq_true, decide_eq_true_eq, UInt8.le_iff_toNat_le] at h
    exact h.1
  have hne : ∀ d : UInt8, d.toNat < 48 → (c == d) = false := by
    intro d hd
    rw [beq_eq_false_iff_ne]
    rintro rfl
    omega
  simp [isDelim, isBlank, isStop, hne]

lemma trim_of_digits {s rest : List UInt8} (hne : s ≠ []) (h : ∀ c ∈ s, isdigit c) :
    trim (s ++ rest) = some (s ++ rest) := by
  obtain ⟨c, l, rfl⟩ := List.exists_cons_of_ne_nil hne
  have hc := isDelim_of_isdigit (h c List.mem_cons_self)
  simp only [isDelim, Bool.or_eq_false_iff] at hc
  simp [trim, hc.1, atEnd, hc.2]

lemma field_of_digits {s rest : List UInt8} (h : ∀ c ∈ s, isdigit c) :
    field (s ++ 9 :: rest) = some (s, 9 :: rest) := by
  have hs : ∀ c ∈ s, (!isDelim c) = true := fun c hc => by simp [isDelim_of_isdigit (h c hc)]
  have htab : (!isDelim 9) = false := rfl
  unfold field
  rw [List.dropWhile_append_of_pos hs, List.takeWhile_append_of_pos hs,
    List.dropWhile_cons_of_neg (by simp [htab]), List.takeWhile_cons_of_neg (by simp [htab])]
  simp [atEnd, isStop]

/-- The escaped command is read back, up to the end of the line. -/
lemma unescape_encodeLine {command rest : List UInt8}
    (h : ∀ c ∈ command, c ≠ 0 ∧ c ≠ 10 ∧ c ≠ 13) (hrest : rest = [] ∨ rest = [10]) :
    unescape (encodeLine command ++ rest) = some (command, rest) := by
  induction command with
  | nil => rcases hrest with rfl | rfl <;> rfl
  | cons c command ih =>
    have ih := ih fun d hd => h d (List.mem_cons_of_mem _ hd)
    obtain ⟨-, h10, h13⟩ := h c List.mem_cons_self
    unfold encodeLine at ih ⊢
    rw [List.flatMap_cons]
    by_cases hesc : isEscaped c
    · rw [if_pos hesc]
      simp only [List.cons_append, List.nil_append]
      rw [unescape, if_pos hesc, ih]
      rfl
    · rw [if_neg hesc]
      simp only [isEscaped, Bool.or_eq_true, beq_iff_eq, not_or] at hesc
      have hdelim : isDelim c = false := by
        simp [isDelim, isBlank, isStop, hesc, h10, h13]
      simp only [List.cons_append, List.nil_append]
      rw [unescape, hdelim, ih]
      · rfl
      · intro _ _ hc
        exact absurd hc hesc.1.1.2
      · intro hc
        exact absurd hc hesc.1.1.2

lemma trim_tab (s : List UInt8) : trim (9 :: s) = trim s := by
  unfold trim
  rw [List.dropWhile_cons_of_pos rfl]

lemma trim_encodeLine {command : List UInt8} (rest : List UInt8) (hne : command ≠ [])
    (h : ∀ c ∈ command, c ≠ 0 ∧ c ≠ 10 ∧ c ≠ 13) :
    trim (encodeLine command ++ rest) = some (encodeLine command ++ rest) := by
  obtain ⟨c, l, rfl⟩ := List.exists_cons_of_ne_nil hne
  obtain ⟨-, h10, h13⟩ := h c List.mem_cons_self
  unfold encodeLine
  rw [List.flatMap_cons]
  by_cases hesc : isEscaped c
  · rw [if_pos hesc]
    rfl
  · rw [if_neg hesc]
    simp only [isEscaped, Bool.or_eq_true, beq_iff_eq, not_or] at hesc
    have hblank : isBlank c = false := by simp [isBlank, hesc]
    have hstop : isStop c = false := by simp [isStop, hesc, h10, h13]
    simp [trim, hblank, atEnd, hstop]

/-- The line with its end, or the line alone where its end did not fit in the buffer. -/
lemma parseLine_format {t : Timer} {rest : List UInt8} (h : Writable t)
    (hrest : rest = [] ∨ rest = [10]) : parseLine (format t ++ rest) = some t := by
  have hid := formatInt_digits h.tId_nonneg
  have htime := formatInt_digits h.execTime_nonneg
  have hend : atEnd rest := by rcases hrest with rfl | rfl <;> rfl
  simp only [parseLine, format, List.append_assoc, List.cons_append]
  rw [trim_of_digits hid.1 hid.2]
  simp only [Option.bind_eq_bind, Option.bind_some, field_of_digits hid.2, trim_tab,
    trim_of_digits htime.1 htime.2, field_of_digits htime.2,
    trim_encodeLine rest h.command_ne h.plain, unescape_encodeLine h.plain hrest, hend, if_true,
    atoi_formatInt h.tId_nonneg h.tId_lt, atol_formatInt h.execTime_nonneg h.execTime_lt]
  rw [List.take_of_length_le (by have := h.command_length; omega)]

lemma mem_encodeLine {command : List UInt8} {c : UInt8} (h : c ∈ encodeLine command) :
    c = 92 ∨ c ∈ command := by
  obtain ⟨d, hd, hc⟩ := List.mem_flatMap.mp h
  split_ifs at hc
  · rcases List.mem_cons.mp hc with hc | hc
    · exact Or.inl hc
    · exact Or.inr (List.mem_singleton.mp hc ▸ hd)
  · exact Or.inr (List.mem_singleton.mp hc ▸ hd)

lemma mem_format {t : Timer} {c : UInt8} (h : Writable t) (hc : c ∈ format t) :
    c ≠ 0 ∧ c ≠ 10 := by
  have hdigit : ∀ d : UInt8, isdigit d → d ≠ 0 ∧ d ≠ 10 := by
    rintro d hd
    constructor <;> rintro rfl <;> simp [isdigit] at hd
  simp only [format, List.mem_append, List.mem_cons] at hc
  rcases hc with (hc | rfl | hc) | rfl | hc
  · exact hdigit c ((formatInt_digits h.tId_nonneg).2 c hc)
  · decide
  · exact hdigit c ((formatInt_digits h.execTime_nonneg).2 c hc)
  · decide
  · rcases mem_encodeLine hc with rfl | hc
    · decide
    · exact ⟨(h.plain c hc).1, (h.plain c hc).2.1⟩

lemma fgets_within {line s rest : List UInt8} (hs : 10 ∉ s) (h : line.length + s.length < 1023) :
    fgets line (s ++ rest) = fgets (s.reverse ++ line) rest := by
  induction s generalizing line with
  | nil => rfl
  | cons c s ih =>
    rw [List.mem_cons, not_or] at hs
    rw [List.length_cons] at h
    have hc : ¬ (c = 10 ∨ line.length + 1 = 1023) := by
      rintro (rfl | hlen)
      · exact hs.1 rfl
      · omega
    rw [List.cons_append, fgets, if_neg hc, ih hs.2 (by rw [List.length_cons]; omega)]
    simp

/-- A line of 1023 bytes fills the buffer, and its end is read as an empty line. -/
lemma fgets_line {s rest : List UInt8} (hs : 10 ∉ s) (h : s.length < 1024) :
    fgets [] (s ++ 10 :: rest) =
      (if s.length = 1023 then [s, [10]] else [s ++ [10]]) ++ fgets [] rest := by
  split_ifs with hlen
  · have hne : s ≠ [] := by
      rintro rfl
      simp at hlen
    obtain ⟨init, c, rfl⟩ := List.eq_nil_or_concat s |>.resolve_left hne
    rw [List.concat_eq_append, List.length_append, List.length_singleton] at hlen
    rw [List.concat_eq_append, List.mem_append, not_or] at hs
    rw [List.concat_eq_append, List.append_assoc, fgets_within hs.1 (by simp; omega),
      List.singleton_append, fgets, if_pos (Or.inr (by simp; omega)), fgets, if_pos (Or.inl rfl)]
    simp
  · rw [fgets_within hs (by simp; omega), fgets, if_pos (Or.inl rfl)]
    simp

/-- The line of a timer is read as this timer. -/
lemma listItems_cons {t : Timer} {file : List UInt8} (h : Writable t) :
    listItems (format t ++ 10 :: file) = t :: listItems file := by
  have hread : ∀ rest : List UInt8, rest = [] ∨ rest = [10] →
      (if isSkipped (format t ++ rest) then none else parseLine (cstr (format t ++ rest))) =
        some t := by
    intro rest hrest
    have hskip : isSkipped (format t ++ rest) = false := by
      have hid := formatInt_digits h.tId_nonneg
      obtain ⟨c, l, hcl⟩ := List.exists_cons_of_ne_nil hid.1
      have hc := isDelim_of_isdigit (hid.2 c (hcl ▸ List.mem_cons_self))
      simp only [isDelim, Bool.or_eq_false_iff] at hc
      simp [format, hcl, isSkipped, hc.2]
    have hcstr : cstr (format t ++ rest) = format t ++ rest := by
      refine List.takeWhile_eq_self_iff.mpr fun c hc => ?_
      rw [bne_iff_ne]
      rcases List.mem_append.mp hc with hc | hc
      · exact (mem_format h hc).1
      · rcases hrest with rfl | rfl
        · cases hc
        · rw [List.mem_singleton.mp hc]
          decide
    rw [hskip, hcstr, parseLine_format h hrest]
    rfl
  unfold listItems
  rw [fgets_line (fun hc => (mem_format h hc).2 rfl) h.fits]
  split_ifs with hlen
  · have := hread [] (Or.inl rfl)
    rw [List.append_nil] at this
    simp only [List.cons_append, List.nil_append, List.filterMap_cons, this]
    rfl
  · simp only [List.cons_append, List.nil_append, List.filterMap_cons, hread [10] (Or.inr rfl)]

/-- **What is written is read**: the lines of writable timers are read as these timers. -/
theorem listItems_format {items : List Timer} (h : ∀ t ∈ items, Writable t) :
    listItems (items.flatMap fun t => format t ++ [10]) = items := by
  induction items with
  | nil => rfl
  | cons t items ih =>
    rw [List.flatMap_cons, List.append_assoc, List.singleton_append,
      listItems_cons (h t List.mem_cons_self), ih fun u hu => h u (List.mem_cons_of_mem _ hu)]

end SteepSystem.Daemons.ListFile
