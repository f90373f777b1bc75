import SteepSystem.MemFiles.Contents

/-!
Lines, seeks, copies. Which calls go wrong: a line that is looked for in the blocks behind a later
one, a line that fills the buffer at such a place, a step back over the beginning of a block, and
a copy of a file that is read behind its first block.
-/

namespace SteepSystem.MemFiles

open SteepSystem.Lib SteepSystem.Lib.Blocks

namespace MemFile

variable {f : MemFile} {g : Scroll UInt8}

/-! ### Seeking -/

/-- Where a seek goes to, before it is kept inside the file. -/
def target (g : Scroll UInt8) (p : ℕ) (offset : ℤ) : SeekOption → ℤ
  | .begin => offset
  | .cur => p + offset
  | .fromEnd => g.cells.length + offset

/-- A seek that is not refused and does not step back over the beginning of a block. -/
def SeekClear (p : ℕ) (offset : ℤ) : SeekOption → Prop
  | .begin => 0 ≤ offset
  | .cur => -offset ≤ (p % fileBlockSize : ℕ)
  | .fromEnd => offset ≤ 0

/-- The block and the place in it are those of a position. -/
lemma eq_pointerAt {a b t n : ℕ} (ht : t = n) (hn : 256 * a + b = n) (hb : b < 256) :
    (⟨a, b, t⟩ : Pointer) = pointerAt n := by
  have hnode : a = n / 256 := by omega
  have hpos : b = n % 256 := by omega
  rw [ht, hnode, hpos]
  rfl

lemma seekPointer_eq (h : f.Holds g) {p : ℕ} (hp : p ≤ g.cells.length) {offset : ℤ}
    {opt : SeekOption} (hclear : SeekClear p offset opt) :
    f.seekPointer (pointerAt p) offset opt = pointerAt (g.clamp (target g p offset opt)) := by
  have htotal := h.total
  have hnodes := h.nodes
  have hmemory := h.memory
  unfold Scroll.clamp target
  rw [← htotal] at hp ⊢
  unfold fileBlockSize at hnodes hmemory
  cases opt with
  | begin =>
    have hclear : 0 ≤ offset := hclear
    unfold seekPointer fileBlockSize
    dsimp only
    rw [if_neg (by omega)]
    split_ifs
    all_goals exact eq_pointerAt (by omega) (by omega) (by omega)
  | cur =>
    have hclear : -offset ≤ (p % 256 : ℕ) := hclear
    unfold seekPointer sizeAdd fileBlockSize
    rw [pointerAt]
    unfold fileBlockSize
    dsimp only
    split_ifs
    all_goals exact eq_pointerAt (by omega) (by omega) (by omega)
  | fromEnd =>
    have hclear : offset ≤ 0 := hclear
    unfold seekPointer fileBlockSize
    dsimp only
    rw [if_neg (by omega)]
    split_ifs
    all_goals exact eq_pointerAt (by omega) (by omega) (by omega)

/-! ### Lines -/

/-- The line is a beginning of what is to be read. -/
lemma line_eq_take (g : Scroll UInt8) : g.line newline = g.rest.take (g.line newline).length :=
  (List.prefix_iff_eq_take.mp (List.takeWhile_prefix _))

lemma takeWhile_drop {α : Type*} {p : α → Bool} {l : List α} {n : ℕ}
    (h : n ≤ (l.takeWhile p).length) : (l.drop n).takeWhile p = (l.takeWhile p).drop n := by
  induction n generalizing l with
  | zero => rfl
  | succ n ih =>
    cases l with
    | nil => simp
    | cons a l =>
      rw [List.takeWhile_cons] at h ⊢
      split at h
      · rename_i ha
        rw [if_pos ha, List.drop_succ_cons, List.drop_succ_cons]
        exact ih (Nat.le_of_succ_le_succ h)
      · simp at h

/-- The search between two positions stops behind the line, or at the end of the bytes. -/
lemma lineEnd_eq {b : Block UInt8} {p c pos : ℕ} (hb : b.read pos c = (g.rest.drop p).take c)
    (hline : p ≤ (g.line newline).length) :
    lineEnd b pos (pos + c) = pos + min c ((g.line newline).length - p) := by
  rw [lineEnd, Nat.add_sub_cancel_left, hb, ← List.take_takeWhile, takeWhile_drop hline,
    List.length_take, List.length_drop]
  rfl

/-- Bytes of a block from a position of the file on, as what is to be read. -/
lemma Holds.drop_rest (h : f.Holds g) {p n : ℕ} (hle : p + n ≤ g.rest.length) :
    (g.rest.drop p).take n = slice fileBlockSize f.list (g.read + p) n := by
  have hall := h.take_rest hle
  have hdrop := congrArg (List.drop p) hall
  rwa [List.drop_take, Nat.add_sub_cancel_left, drop_slice] at hdrop

/-- What is to be read of the file. -/
def rest (f : MemFile) : List UInt8 :=
  slice fileBlockSize f.list f.rd.totalPos (f.fileTotalLen - f.rd.totalPos)

lemma Holds.rest (h : f.Holds g) : f.rest = g.rest := by
  have htotal := h.total
  have hlen := g.length_rest
  have htake := h.take_rest (le_refl g.rest.length)
  rw [List.take_length] at htake
  rw [MemFile.rest, h.rd, htake, htotal, hlen]
  rfl

/-- A line that `mem_file_readline` finds: from the last block, within the block, within the
blocks that the buffer takes whole, or from the first block and then not of the length of the
buffer. -/
def LineClear (f : MemFile) (size : ℕ) : Prop :=
  let length := (f.rest.takeWhile (· ≠ newline)).length
  let left := fileBlockSize - f.rd.blockPos
  let distance := min (size - 1) f.rest.length
  f.rd.node + 1 = f.list.length ∨ size - 1 < left ∨
    length < left + (distance - left) / fileBlockSize * fileBlockSize ∨
    f.rd.node = 0 ∧ (length ≠ size - 1 ∨ length = f.rest.length)

/-- The call on the scroll: the line without its newline, as far as the buffer takes it. -/
def scrollLine (g : Scroll UInt8) (size : ℕ) : Option (List UInt8) × Scroll UInt8 :=
  if size = 0 then (some [], g)
  else if g.rest = [] then (none, g)
  else if size - 1 < (g.line newline).length then
    (some (g.rest.take (size - 1)), g.readAt (g.read + (size - 1)))
  else (some (g.line newline), g.readAt (g.read + ((g.line newline).length + 1)))

/-- The loop over whole blocks finds the line if it ends in one of them, and comes to the end of
them otherwise. -/
lemma readlineBlocks_spec (h : f.Holds g) {n m k a : ℕ} (hk : g.read + a = k * fileBlockSize)
    (ha : a ≤ (g.line newline).length) (hm : m ≤ n)
    (hle : a + m * fileBlockSize ≤ g.rest.length) :
    ((g.line newline).length < a + m * fileBlockSize →
      ∃ q i, f.readlineBlocks n k (g.rest.take a) = some (g.line newline, k + q, some i) ∧
        i < fileBlockSize ∧ (g.line newline).length = a + q * fileBlockSize + i) ∧
      (a + m * fileBlockSize ≤ (g.line newline).length → n = m →
        f.readlineBlocks n k (g.rest.take a) =
          some (g.rest.take (a + m * fileBlockSize), k + m, none)) := by
  induction n generalizing m k a with
  | zero =>
    obtain rfl := Nat.le_zero.mp hm
    rw [Nat.zero_mul, Nat.add_zero] at *
    exact ⟨fun hlt => absurd hlt (Nat.not_lt.mpr ha), fun _ _ => rfl⟩
  | succ n ih =>
    cases m with
    | zero =>
      rw [Nat.zero_mul, Nat.add_zero]
      exact ⟨fun hlt => absurd hlt (Nat.not_lt.mpr ha), fun _ hne => absurd hne (by omega)⟩
    | succ m =>
      rw [Nat.succ_mul] at hle ⊢
      have hlen := g.length_rest
      have hread := g.read_le
      have hnode := h.node_lt (by omega : g.read + a ≤ g.cells.length)
      rw [hk, Nat.mul_div_cancel _ fileBlockSize_pos] at hnode
      have hb := List.getElem?_eq_getElem hnode
      have hblock {c : ℕ} (hc : c ≤ fileBlockSize) :
          (f.list[k]).read 0 c = (g.rest.drop a).take c := by
        rw [h.drop_rest (by omega), hk, blockRead_start hb hc]
      have hend := lineEnd_eq (hblock le_rfl) ha
      rw [Nat.zero_add, Nat.zero_add] at hend
      rw [readlineBlocks, hb]
      simp only [Option.bind_eq_bind, Option.bind_some]
      rw [hend]
      by_cases hin : (g.line newline).length < a + fileBlockSize
      · have hi : min fileBlockSize ((g.line newline).length - a) =
            (g.line newline).length - a := by omega
        rw [hi, if_pos (by omega)]
        refine ⟨fun _ => ⟨0, (g.line newline).length - a, ?_, by omega, by omega⟩, fun hle' => ?_⟩
        · rw [hblock (by omega : (g.line newline).length - a ≤ fileBlockSize), ← List.take_add,
            Nat.add_sub_cancel' ha, ← line_eq_take]
          rfl
        · omega
      · have hi : min fileBlockSize ((g.line newline).length - a) = fileBlockSize := by omega
        rw [hi, if_neg (not_not.mpr rfl), hblock le_rfl, ← List.take_add]
        obtain ⟨hfound, hnone⟩ := @ih m (k + 1) (a + fileBlockSize)
          (by rw [Nat.succ_mul]; omega) (by omega) (by omega) (by omega)
        refine ⟨fun hlt => ?_, fun hle' hn => ?_⟩
        · obtain ⟨q, i, hq, hi, hsum⟩ := hfound (by omega)
          exact ⟨q + 1, i, by rw [hq]; congr 3; omega, hi, by rw [Nat.succ_mul]; omega⟩
        · rw [hnone (by omega) (by omega)]
          congr 2
          · congr 1
            omega
          · congr 1
            omega

lemma pointerAt_start {n q m : ℕ} (hm : m < fileBlockSize)
    (hn : n = q * fileBlockSize + m) : pointerAt n = ⟨q, m, n⟩ := by
  have hdiv : n / fileBlockSize = q := by
    rw [hn, Nat.add_comm, Nat.add_mul_div_right _ _ fileBlockSize_pos, Nat.div_eq_of_lt hm,
      Nat.zero_add]
  have hmod : n % fileBlockSize = m := by
    rw [hn, Nat.mul_add_mod_self_right, Nat.mod_eq_of_lt hm]
  rw [pointerAt, hdiv, hmod]

/-- The place behind a newline, which is in the next block if the newline ends its own. -/
lemma pointerAt_next {n q i : ℕ} (hi : i < fileBlockSize) (hn : n = q * fileBlockSize + i) :
    pointerAt (n + 1) =
      if i + 1 = fileBlockSize then ⟨q + 1, 0, n + 1⟩ else ⟨q, i + 1, n + 1⟩ := by
  split_ifs with hfull
  · exact pointerAt_start fileBlockSize_pos (by rw [Nat.succ_mul]; omega)
  · exact pointerAt_start (by omega) (by omega)

/-- The place for reading moved on within its block. -/
lemma Holds.inside (h : f.Holds g) {n : ℕ} (hin : g.read % fileBlockSize + n < fileBlockSize)
    (hn : n ≤ g.rest.length) :
    Holds { f with rd := ⟨g.read / fileBlockSize, g.read % fileBlockSize + n, g.read + n⟩ }
      (g.readAt (g.read + n)) := by
  have hlen := g.length_rest
  have hle := g.read_le
  rw [← pointerAt_inside hin]
  exact h.setRd (by omega)

/-- There is no newline to pass behind the last line. -/
lemma readAt_succ {n : ℕ} (hn : g.rest.length ≤ n) :
    g.readAt (g.read + (n + 1)) = g.readAt (g.read + n) := by
  have hlen := g.length_rest
  refine Scroll.ext_fields rfl ?_ rfl
  dsimp only [Scroll.readAt]
  omega

/-- How many blocks the source counts to look for the line in. -/
lemma lineBlocks_eq {r d q m : ℕ}
    (hsum : d = fileBlockSize - r % fileBlockSize + q * fileBlockSize + m) (hm : m < fileBlockSize)
    (hstart : r + (fileBlockSize - r % fileBlockSize) = (r / fileBlockSize + 1) * fileBlockSize) :
    (if r ≠ 0 then (d + r - fileBlockSize) / fileBlockSize + 1 else d / fileBlockSize) - 1 =
      q + r / fileBlockSize := by
  have hd : d + r = m + (q + r / fileBlockSize + 1) * fileBlockSize := by
    rw [Nat.succ_mul, Nat.add_mul]
    rw [Nat.succ_mul] at hstart
    omega
  have hdiv : (d + r) / fileBlockSize = q + r / fileBlockSize + 1 := by
    rw [hd, Nat.add_mul_div_right _ _ fileBlockSize_pos, Nat.div_eq_of_lt hm, Nat.zero_add]
  have hsub := Nat.sub_mul_div (d + r) fileBlockSize 1
  rw [Nat.mul_one] at hsub
  split_ifs with h0
  · rw [hsub, hdiv, Nat.add_sub_cancel, Nat.add_sub_cancel]
  · rw [not_not.mp h0, Nat.add_zero] at hdiv
    rw [hdiv, not_not.mp h0, Nat.add_sub_cancel]

/-- The line goes on in the blocks behind. -/
lemma exists_readlineAcross (h : f.Holds g) {s : ℕ}
    (hin : fileBlockSize - g.read % fileBlockSize ≤ (g.line newline).length)
    (hs : fileBlockSize - g.read % fileBlockSize ≤ s)
    (hclear : (g.line newline).length < fileBlockSize - g.read % fileBlockSize +
          (min s g.rest.length - (fileBlockSize - g.read % fileBlockSize)) / fileBlockSize *
            fileBlockSize ∨
        g.read / fileBlockSize = 0 ∧
          ((g.line newline).length ≠ s ∨ (g.line newline).length = g.rest.length)) :
    ∃ f', f.readlineAcross (min s g.rest.length)
        (g.rest.take (fileBlockSize - g.read % fileBlockSize)) =
          some (if s < (g.line newline).length then some (g.rest.take s)
            else some (g.line newline), f') ∧
      f'.Holds (if s < (g.line newline).length then g.readAt (g.read + s)
        else g.readAt (g.read + ((g.line newline).length + 1))) := by
  have htotal := h.total
  have hlen := g.length_rest
  have hle := g.read_le
  have hline := Scroll.length_line_le newline g
  obtain ⟨q, m, hsum, hm, hstart, hp, hq, hmod, -⟩ :=
    @pointerAt_across g.read (min s g.rest.length) (by omega)
  rw [hq] at hclear
  have hblocks := lineBlocks_eq hsum hm hstart
  have hspec := @readlineBlocks_spec f g h (q + g.read / fileBlockSize) q
    (g.read / fileBlockSize + 1) (fileBlockSize - g.read % fileBlockSize) hstart hin
    (Nat.le_add_right q _) (by omega)
  rw [readlineAcross, h.rd, pointerAt]
  dsimp only
  rw [hblocks, hmod]
  clear hblocks hmod hq
  by_cases hfound : (g.line newline).length <
      fileBlockSize - g.read % fileBlockSize + q * fileBlockSize
  · obtain ⟨r, i, hloop, hi, hlen'⟩ := hspec.1 hfound
    clear hspec
    have hshort : ¬s < (g.line newline).length := by omega
    rw [hloop, Option.bind_eq_bind, Option.bind_some, if_neg hshort, if_neg hshort]
    dsimp only
    have hp' : pointerAt (g.read + ((g.line newline).length + 1)) = _ :=
      @pointerAt_next (g.read + (g.line newline).length) (g.read / fileBlockSize + 1 + r) i hi
        (by rw [Nat.add_mul]; omega)
    refine ⟨_, ?_, h.setRd (by omega : g.read + ((g.line newline).length + 1) ≤ g.cells.length)⟩
    rw [hp']
    rfl
  · obtain ⟨h0, hexact⟩ := hclear.resolve_left hfound
    have hfound := Nat.not_lt.mp hfound
    have hloop := hspec.2 hfound (by rw [h0, Nat.add_zero])
    clear hspec
    rw [hloop, Option.bind_eq_bind, Option.bind_some]
    dsimp only
    have hnode := h.node_lt (by omega : g.read + min s g.rest.length ≤ g.cells.length)
    have hnode' : (g.read + min s g.rest.length) / fileBlockSize = g.read / fileBlockSize + 1 + q :=
      congrArg Pointer.node hp
    rw [hnode'] at hnode
    have hb := List.getElem?_eq_getElem hnode
    have hplace : g.read + (fileBlockSize - g.read % fileBlockSize + q * fileBlockSize) =
        (g.read / fileBlockSize + 1 + q) * fileBlockSize := by
      rw [Nat.add_mul]
      omega
    have hblock {c : ℕ} (hc : c ≤ m) :
        (f.list[g.read / fileBlockSize + 1 + q]).read 0 c =
          (g.rest.drop (fileBlockSize - g.read % fileBlockSize + q * fileBlockSize)).take c := by
      rw [h.drop_rest (by omega), hplace, blockRead_start hb (by omega)]
    have hend := lineEnd_eq (hblock le_rfl) hfound
    rw [Nat.zero_add, Nat.zero_add] at hend
    rw [hb, Option.bind_eq_bind, Option.bind_some, hend]
    by_cases hin' : (g.line newline).length < min s g.rest.length
    · have hshort : ¬s < (g.line newline).length := by omega
      have hmin : min m ((g.line newline).length -
          (fileBlockSize - g.read % fileBlockSize + q * fileBlockSize)) =
          (g.line newline).length -
            (fileBlockSize - g.read % fileBlockSize + q * fileBlockSize) := by omega
      rw [hmin, if_neg hshort, if_neg hshort, if_pos (by omega),
        hblock (by omega : (g.line newline).length -
          (fileBlockSize - g.read % fileBlockSize + q * fileBlockSize) ≤ m),
        ← List.take_add, Nat.add_sub_cancel' hfound, ← line_eq_take]
      have hp' : pointerAt (g.read + ((g.line newline).length + 1)) =
          ⟨g.read / fileBlockSize + 1 + q, (g.line newline).length -
            (fileBlockSize - g.read % fileBlockSize + q * fileBlockSize) + 1,
            g.read + ((g.line newline).length + 1)⟩ :=
        pointerAt_start (by omega) (by omega)
      refine ⟨_, ?_, h.setRd (by omega : g.read + ((g.line newline).length + 1) ≤ g.cells.length)⟩
      rw [hp']
      rfl
    · have hmin : min m ((g.line newline).length -
          (fileBlockSize - g.read % fileBlockSize + q * fileBlockSize)) = m := by omega
      have htake : (g.rest.take (min s g.rest.length)).length = min s g.rest.length := by
        rw [List.length_take]
        omega
      rw [hmin, if_neg (not_not.mpr rfl), hblock le_rfl, ← List.take_add, ← hsum, htake]
      have hholds := h.setRd (by omega : g.read + min s g.rest.length ≤ g.cells.length)
      rw [hp] at hholds
      by_cases hshort : s < (g.line newline).length
      · rw [if_pos hshort, if_pos hshort]
        rw [min_eq_left (by omega)] at hholds ⊢
        exact ⟨_, rfl, hholds⟩
      · have hall : min s g.rest.length = (g.line newline).length := by omega
        rw [if_neg hshort, if_neg hshort, readAt_succ (by omega)]
        rw [hall] at hholds ⊢
        rw [← line_eq_take]
        exact ⟨_, rfl, hholds⟩

lemma exists_readline (h : f.Holds g) {size : ℕ} (hclear : f.LineClear size) :
    ∃ f', f.readline size = some ((scrollLine g size).1, f') ∧ f'.Holds (scrollLine g size).2 := by
  have htotal := h.total
  have hlen := g.length_rest
  have hle := g.read_le
  have hmod := mod_lt_block g.read
  have hpos := Nat.div_add_mod' g.read fileBlockSize
  have hline := Scroll.length_line_le newline g
  rw [LineClear, h.rest, h.rd, pointerAt] at hclear
  dsimp only at hclear
  rw [readline, scrollLine, h.rd, pointerAt]
  dsimp only
  by_cases h0 : size = 0
  · rw [if_pos h0, if_pos h0]
    exact ⟨f, rfl, h⟩
  rw [if_neg h0, if_neg h0]
  by_cases hend : f.fileTotalLen ≤ g.read
  · have hnil : g.rest = [] := List.length_eq_zero_iff.mp (by omega)
    rw [if_pos hend, if_pos hnil]
    exact ⟨f, rfl, h⟩
  have hne : g.rest ≠ [] := fun hnil => hend (by rw [hnil, List.length_nil] at hlen; omega)
  rw [if_neg hend, if_neg hne]
  generalize hs : size - 1 = s at *
  have hnode := h.node_lt hle
  have hb := List.getElem?_eq_getElem hnode
  rw [hb, Option.bind_eq_bind, Option.bind_some]
  have hblock {c : ℕ} (hc : g.read % fileBlockSize + c ≤ fileBlockSize) (hc' : c ≤ g.rest.length) :
      (f.list[g.read / fileBlockSize]).read (g.read % fileBlockSize) c = g.rest.take c := by
    rw [blockRead_at hb hc, h.take_rest hc']
  have hnodes := h.nodes
  have htail := Nat.div_add_mod' f.fileTotalLen fileBlockSize
  have htailmod := mod_lt_block f.fileTotalLen
  by_cases hlast : g.read / fileBlockSize + 1 = f.list.length
  · -- the last block
    have hstop : f.fileTotalLen % fileBlockSize =
        g.read % fileBlockSize + (f.fileTotalLen - g.read) := by
      have heq : g.read / fileBlockSize = f.fileTotalLen / fileBlockSize := by omega
      rw [heq] at hpos
      omega
    have hrest : f.fileTotalLen - g.read = g.rest.length := by omega
    rw [hrest] at hstop
    have hi := @lineEnd_eq g _ 0 _ _ (hblock (by omega) le_rfl : _ = (g.rest.drop 0).take _)
      (Nat.zero_le _)
    rw [Nat.sub_zero, min_eq_right hline] at hi
    rw [if_pos hlast, hstop, hi, Nat.add_sub_cancel_left]
    by_cases hshort : s < (g.line newline).length
    · rw [if_pos hshort, if_pos hshort, hblock (by omega) (by omega)]
      exact ⟨_, rfl, h.inside (by omega) (by omega)⟩
    · rw [if_neg hshort, if_neg hshort, if_pos hlast, hblock (by omega) hline, ← line_eq_take]
      by_cases hnl : g.read % fileBlockSize + (g.line newline).length ≠
          g.read % fileBlockSize + g.rest.length
      · rw [if_pos hnl]
        exact ⟨_, rfl, h.inside (by omega) (by omega)⟩
      · rw [if_neg hnl, readAt_succ (by omega)]
        exact ⟨_, rfl, h.inside (by omega) hline⟩
  · -- a block before the last one
    have hwhole : (g.read / fileBlockSize + 1) * fileBlockSize ≤ f.fileTotalLen := by
      have := Nat.mul_le_mul_right fileBlockSize
        (show g.read / fileBlockSize + 1 ≤ f.fileTotalLen / fileBlockSize by omega)
      omega
    rw [Nat.succ_mul] at hwhole
    have hleft : fileBlockSize - g.read % fileBlockSize ≤ g.rest.length := by omega
    have hi := @lineEnd_eq g _ 0 _ _ (hblock (by omega) hleft : _ = (g.rest.drop 0).take _)
      (Nat.zero_le _)
    rw [Nat.sub_zero, Nat.add_sub_cancel' hmod.le] at hi
    rw [if_neg hlast, hi, Nat.add_sub_cancel_left]
    by_cases hin : (g.line newline).length < fileBlockSize - g.read % fileBlockSize
    · rw [min_eq_right hin.le]
      by_cases hshort : s < (g.line newline).length
      · rw [if_pos hshort, if_pos hshort, hblock (by omega) (by omega)]
        exact ⟨_, rfl, h.inside (by omega) (by omega)⟩
      · rw [if_neg hshort, if_neg hshort, if_neg hlast, if_pos (by omega),
          hblock (by omega) hline, ← line_eq_take]
        have hp : pointerAt (g.read + ((g.line newline).length + 1)) = _ :=
          @pointerAt_next (g.read + (g.line newline).length) (g.read / fileBlockSize)
            (g.read % fileBlockSize + (g.line newline).length) (by omega) (by omega)
        refine ⟨_, ?_, h.setRd
          (by omega : g.read + ((g.line newline).length + 1) ≤ g.cells.length)⟩
        rw [hp]
        rfl
    · have hin := Nat.not_lt.mp hin
      rw [min_eq_left hin]
      by_cases hshort : s < fileBlockSize - g.read % fileBlockSize
      · rw [if_pos hshort, if_pos (by omega), hblock (by omega) (by omega)]
        exact ⟨_, rfl, h.inside (by omega) (by omega)⟩
      · rw [if_neg hshort, if_neg hlast, Nat.add_sub_cancel' hmod.le, if_neg (not_not.mpr rfl),
          hblock (by omega) hleft]
        have hdistance : (if s < f.fileTotalLen - g.read then s else f.fileTotalLen - g.read) =
            min s g.rest.length := by
          split_ifs <;> omega
        rw [hdistance]
        obtain ⟨f', hf', hholds⟩ := exists_readlineAcross h hin (Nat.not_lt.mp hshort)
          ((hclear.resolve_left hlast).resolve_left hshort)
        refine ⟨f', ?_, ?_⟩
        · rw [hf']
          split_ifs <;> rfl
        · split_ifs at hholds ⊢ <;> exact hholds

end MemFile

end SteepSystem.MemFiles
