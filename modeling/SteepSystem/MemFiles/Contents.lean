import SteepSystem.Lib.Scrolls
import SteepSystem.MemFiles.Model

/-!
What a file in memory holds, and what reading and writing through the blocks make of it.
-/

namespace SteepSystem.MemFiles

open SteepSystem.Lib SteepSystem.Lib.Blocks

/-- The pointer that stands at a position of the file. -/
def pointerAt (n : ℕ) : Pointer := ⟨n / fileBlockSize, n % fileBlockSize, n⟩

lemma fileBlockSize_pos : 0 < fileBlockSize := by decide

lemma mod_lt_block (n : ℕ) : n % fileBlockSize < fileBlockSize := Nat.mod_lt _ fileBlockSize_pos

lemma pointerAt_inside {n k : ℕ} (h : n % fileBlockSize + k < fileBlockSize) :
    pointerAt (n + k) = ⟨n / fileBlockSize, n % fileBlockSize + k, n + k⟩ := by
  have hn := Nat.div_add_mod' n fileBlockSize
  have hdiv : (n + k) / fileBlockSize = n / fileBlockSize := by
    rw [← hn, Nat.add_assoc, Nat.add_comm, Nat.add_mul_div_right _ _ fileBlockSize_pos,
      Nat.div_eq_of_lt h, Nat.zero_add, hn]
  have hnk := Nat.div_add_mod' (n + k) fileBlockSize
  rw [hdiv] at hnk
  rw [pointerAt, hdiv]
  congr 1
  omega

/-- The pointer behind the end of its block: so many blocks more, and so many bytes of another. -/
lemma pointerAt_across {n size : ℕ} (h : fileBlockSize - n % fileBlockSize ≤ size) :
    ∃ q m, size = fileBlockSize - n % fileBlockSize + q * fileBlockSize + m ∧ m < fileBlockSize ∧
      n + (fileBlockSize - n % fileBlockSize) = (n / fileBlockSize + 1) * fileBlockSize ∧
      pointerAt (n + size) = ⟨n / fileBlockSize + 1 + q, m, n + size⟩ ∧
      (size - (fileBlockSize - n % fileBlockSize)) / fileBlockSize = q ∧
      (size - (fileBlockSize - n % fileBlockSize)) % fileBlockSize = m ∧
      (if n % fileBlockSize ≠ 0 then
        (size - (fileBlockSize - n % fileBlockSize)) / fileBlockSize
      else size / fileBlockSize - 1) = q := by
  have hn := Nat.div_add_mod' n fileBlockSize
  have hlt := mod_lt_block n
  have hrest := Nat.div_add_mod' (size - (fileBlockSize - n % fileBlockSize)) fileBlockSize
  have hm := mod_lt_block (size - (fileBlockSize - n % fileBlockSize))
  refine ⟨_, _, ?_, hm, ?_, ?_, rfl, rfl, ?_⟩
  · omega
  · rw [Nat.succ_mul]
    omega
  · have hsum : n + size = (size - (fileBlockSize - n % fileBlockSize)) % fileBlockSize +
        (n / fileBlockSize + 1 + (size - (fileBlockSize - n % fileBlockSize)) / fileBlockSize) *
          fileBlockSize := by
      rw [Nat.add_mul, Nat.succ_mul]
      omega
    unfold pointerAt
    congr 1
    · rw [hsum, Nat.add_mul_div_right _ _ fileBlockSize_pos, Nat.div_eq_of_lt hm, Nat.zero_add]
    · rw [hsum, Nat.add_mul_mod_self_right, Nat.mod_eq_of_lt hm]
  · split_ifs with h0
    · rfl
    · have h0 : n % fileBlockSize = 0 := not_not.mp h0
      have hsub := Nat.sub_mul_div size fileBlockSize 1
      rw [Nat.mul_one] at hsub
      rw [h0, Nat.sub_zero, hsub]

lemma remainsOf_eq {taken m : ℕ} (h : taken + m < 2 ^ 31) :
    MemFile.remainsOf (taken + m) taken = m := by
  unfold MemFile.remainsOf
  rw [Int.bmod_eq_of_le (by omega) (by omega)]
  omega

namespace MemFile

/-- The file holds the scroll: its first blocks have the cells, one block is always begun, and the
pointers stand where the scroll is read and written. -/
structure Holds (f : MemFile) (g : Scroll UInt8) : Prop where
  cells : slice fileBlockSize f.list 0 f.fileTotalLen = g.cells
  nodes : f.list.length = f.fileTotalLen / fileBlockSize + 1
  rd : f.rd = pointerAt g.read
  wr : f.wr = pointerAt g.write
  memory : (f.list.length + f.allocator.length) * fileBlockSize < 2 ^ 63

variable {f f' : MemFile} {g : Scroll UInt8}

lemma Holds.total (h : f.Holds g) : f.fileTotalLen = g.cells.length := by
  rw [← h.cells, length_slice]

lemma Holds.total_lt (h : f.Holds g) : f.fileTotalLen < fileBlockSize * f.list.length := by
  rw [h.nodes, Nat.mul_comm, Nat.succ_mul]
  have := Nat.div_add_mod' f.fileTotalLen fileBlockSize
  have := mod_lt_block f.fileTotalLen
  omega

lemma Holds.node_lt (h : f.Holds g) {n : ℕ} (hn : n ≤ g.cells.length) :
    n / fileBlockSize < f.list.length := by
  rw [h.nodes, h.total]
  exact Nat.lt_succ_of_le (Nat.div_le_div_right hn)

/-- Bytes that are to be read, as they lie in the blocks. -/
lemma Holds.take_rest (h : f.Holds g) {n : ℕ} (hn : n ≤ g.rest.length) :
    g.rest.take n = slice fileBlockSize f.list g.read n := by
  have hle := g.read_le
  have htotal := h.total
  rw [Scroll.length_rest] at hn
  obtain ⟨k, hk⟩ := Nat.exists_eq_add_of_le hle
  rw [Scroll.rest, ← h.cells, htotal, hk, drop_slice, Nat.zero_add, take_slice (by omega)]

/-! ### Reading -/

/-- The bytes of a block from a position of the file on. -/
lemma blockRead_at {b : Block UInt8} {p n : ℕ} (hb : f.list[p / fileBlockSize]? = some b)
    (hn : p % fileBlockSize + n ≤ fileBlockSize) :
    b.read (p % fileBlockSize) n = slice fileBlockSize f.list p n := by
  rw [blockRead_eq hb hn, Nat.div_add_mod']

lemma blockRead_start {b : Block UInt8} {k n : ℕ} (hb : f.list[k]? = some b)
    (hn : n ≤ fileBlockSize) :
    b.read 0 n = slice fileBlockSize f.list (k * fileBlockSize) n := by
  rw [blockRead_eq hb ((Nat.zero_add n).trans_le hn), Nat.add_zero]

lemma readBlocks_eq {n k : ℕ} (h : k + n ≤ f.list.length) :
    f.readBlocks n k =
      some (slice fileBlockSize f.list (k * fileBlockSize) (n * fileBlockSize), k + n) := by
  induction n generalizing k with
  | zero => simp [readBlocks, slice]
  | succ n ih =>
    have hk : k < f.list.length := by omega
    rw [readBlocks, List.getElem?_eq_getElem hk]
    simp only [Option.bind_eq_bind, Option.bind_some]
    rw [ih (by omega)]
    simp only [Option.bind_some]
    rw [blockRead_start (List.getElem?_eq_getElem hk) le_rfl, Nat.succ_mul, slice_append]
    simp [Nat.succ_mul, Nat.add_comm, Nat.add_left_comm]

lemma Holds.setRd (h : f.Holds g) {n : ℕ} (hn : n ≤ g.cells.length) :
    Holds { f with rd := pointerAt n } (g.readAt n) :=
  ⟨h.cells, h.nodes, congrArg pointerAt (min_eq_left hn).symm, h.wr, h.memory⟩

lemma Holds.setWr (h : f.Holds g) {n : ℕ} (hn : n ≤ g.cells.length) :
    Holds { f with wr := pointerAt n } (g.writeAt n) :=
  ⟨h.cells, h.nodes, h.rd, congrArg pointerAt (min_eq_left hn).symm, h.memory⟩

lemma readAt_end (h : g.rest = []) (n : ℕ) : g.readAt (g.read + n) = g := by
  have hlen := congrArg List.length h
  rw [Scroll.length_rest, List.length_nil] at hlen
  have := g.read_le
  refine Scroll.ext_fields rfl ?_ rfl
  dsimp only [Scroll.readAt]
  omega

lemma exists_read (h : f.Holds g) {size : ℕ} (hclear : min size g.rest.length < 2 ^ 31) :
    ∃ f', f.read size = some (if g.rest = [] then none else some (g.rest.take size), f') ∧
      f'.Holds (g.readAt (g.read + size)) := by
  have htotal := h.total
  have hlen := g.length_rest
  have hle := g.read_le
  rw [read, h.rd, pointerAt]
  dsimp only
  by_cases hend : f.fileTotalLen ≤ g.read
  · have hnil : g.rest = [] := List.length_eq_zero_iff.mp (by omega)
    rw [if_pos hend, if_pos hnil, readAt_end hnil]
    exact ⟨f, rfl, h⟩
  have hne : g.rest ≠ [] := fun hnil => hend (by rw [hnil, List.length_nil] at hlen; omega)
  rw [if_neg hend, if_neg hne]
  have hsize : (if f.fileTotalLen - g.read < size then f.fileTotalLen - g.read else size) =
      min size g.rest.length := by
    split_ifs <;> omega
  rw [hsize]
  have htake : g.rest.take size = g.rest.take (min size g.rest.length) := by
    rw [List.take_eq_take_min]
  have hread : g.readAt (g.read + size) = g.readAt (g.read + min size g.rest.length) := by
    refine Scroll.ext_fields rfl ?_ rfl
    dsimp only [Scroll.readAt]
    omega
  rw [htake, hread]
  generalize hn : min size g.rest.length = n at *
  have hnle : n ≤ g.rest.length := by omega
  have hnode := h.node_lt hle
  have hb := List.getElem?_eq_getElem hnode
  rw [hb]
  simp only [Option.bind_eq_bind, Option.bind_some]
  have hpos := Nat.div_add_mod' g.read fileBlockSize
  by_cases hinside : n < fileBlockSize - g.read % fileBlockSize
  · rw [if_pos hinside]
    have hinside' : g.read % fileBlockSize + n ≤ fileBlockSize := by omega
    have hp : pointerAt (g.read + n) =
        ⟨g.read / fileBlockSize, g.read % fileBlockSize + n, g.read + n⟩ :=
      pointerAt_inside (by omega)
    refine ⟨_, ?_, h.setRd (by omega : g.read + n ≤ g.cells.length)⟩
    rw [blockRead_at hb hinside', h.take_rest hnle, hp]
    rfl
  · rw [if_neg hinside]
    have hmod := mod_lt_block g.read
    obtain ⟨q, m, hsum, hm, hstart, hp, -, -, hq⟩ := pointerAt_across (Nat.not_lt.mp hinside)
    have hlast := h.node_lt (by omega : g.read + n ≤ g.cells.length)
    have hnode' : (g.read + n) / fileBlockSize = g.read / fileBlockSize + 1 + q :=
      congrArg Pointer.node hp
    rw [hnode'] at hlast
    have hb' := List.getElem?_eq_getElem hlast
    have hremains : remainsOf n (fileBlockSize - g.read % fileBlockSize + q * fileBlockSize) = m := by
      rw [hsum]
      exact remainsOf_eq (by omega)
    rw [hq, readBlocks_eq hlast.le, Option.bind_some]
    dsimp only
    rw [hb', Option.bind_some, hremains, if_neg (by omega)]
    refine ⟨_, ?_, h.setRd (by omega : g.read + n ≤ g.cells.length)⟩
    have hleft : g.read % fileBlockSize + (fileBlockSize - g.read % fileBlockSize) ≤ fileBlockSize :=
      by omega
    rw [h.take_rest hnle, hp, blockRead_at hb hleft, blockRead_start hb' hm.le, ← hstart,
      slice_append, Nat.add_mul, ← hstart, Nat.add_assoc, slice_append, ← hsum]
    rfl

/-! ### Writing -/

lemma writeBlocks_spec {n k : ℕ} {pbuff : List UInt8} {list : List (Block UInt8)}
    (h : k + n ≤ list.length) (hlen : n * fileBlockSize ≤ pbuff.length) :
    ∃ list', writeBlocks n k pbuff list = some (k + n, pbuff.drop (n * fileBlockSize), list') ∧
      Written fileBlockSize list list' (k * fileBlockSize) (pbuff.take (n * fileBlockSize)) := by
  induction n generalizing k pbuff list with
  | zero => exact ⟨list, by simp [writeBlocks], by simpa using Written.refl _⟩
  | succ n ih =>
    rw [Nat.succ_mul] at hlen
    have hfirst : (pbuff.take fileBlockSize).length = fileBlockSize := by
      rw [List.length_take]
      omega
    have hwritten : Written fileBlockSize list
        (list.modify k fun b => b.fill 0 (pbuff.take fileBlockSize)) (k * fileBlockSize + 0)
        (pbuff.take fileBlockSize) := written_modify (by omega) (by omega)
    obtain ⟨list', hrest, hwritten'⟩ := @ih (k + 1) (pbuff.drop fileBlockSize)
      (list.modify k fun b => b.fill 0 (pbuff.take fileBlockSize))
      (by rw [List.length_modify]; omega) (by rw [List.length_drop]; omega)
    refine ⟨list', ?_, ?_⟩
    · rw [writeBlocks, if_pos (by omega), hrest, List.drop_drop, Nat.succ_mul,
        Nat.add_comm fileBlockSize, Nat.add_right_comm k 1 n, Nat.add_assoc k n 1]
    · rw [Nat.succ_mul, Nat.add_comm (n * fileBlockSize), List.take_add]
      rw [Nat.add_zero] at hwritten
      refine hwritten.append ?_
      rw [hfirst, ← Nat.succ_mul]
      exact hwritten'

/-- Bytes for which the blocks are there are written from the position on. -/
lemma exists_writeBytes {n : ℕ} {pbuff : List UInt8} (hwr : f.wr = pointerAt n)
    (hroom : n + pbuff.length < f.list.length * fileBlockSize) (hsize : pbuff.length < 2 ^ 31) :
    ∃ list', f.writeBytes pbuff = some { f with
        list := list'
        wr := pointerAt (n + pbuff.length)
        fileTotalLen := max f.fileTotalLen (n + pbuff.length) } ∧
      Written fileBlockSize f.list list' n pbuff := by
  have hpos := Nat.div_add_mod' n fileBlockSize
  have hmod := mod_lt_block n
  have hnode : n / fileBlockSize < f.list.length :=
    (Nat.div_lt_iff_lt_mul fileBlockSize_pos).mpr (by omega)
  rw [writeBytes, hwr, pointerAt]
  dsimp only
  rw [if_neg (Nat.not_le.mpr hnode)]
  by_cases hinside : pbuff.length < fileBlockSize - n % fileBlockSize
  · rw [if_pos hinside]
    have hp : pointerAt (n + pbuff.length) =
        ⟨n / fileBlockSize, n % fileBlockSize + pbuff.length, n + pbuff.length⟩ :=
      pointerAt_inside (by omega)
    have hwritten : Written fileBlockSize f.list
        (f.list.modify (n / fileBlockSize) fun b => b.fill (n % fileBlockSize) pbuff)
        (n / fileBlockSize * fileBlockSize + n % fileBlockSize) pbuff :=
      written_modify hnode (by omega)
    rw [hpos] at hwritten
    exact ⟨_, by rw [hp]; rfl, hwritten⟩
  · rw [if_neg hinside]
    obtain ⟨q, m, hsum, hm, hstart, hp, -, -, hq⟩ := pointerAt_across (Nat.not_lt.mp hinside)
    have hnode' : (n + pbuff.length) / fileBlockSize = n / fileBlockSize + 1 + q :=
      congrArg Pointer.node hp
    have hlast : n / fileBlockSize + 1 + q < f.list.length := by
      rw [← hnode']
      exact (Nat.div_lt_iff_lt_mul fileBlockSize_pos).mpr hroom
    have hremains : remainsOf pbuff.length
        (fileBlockSize - n % fileBlockSize + q * fileBlockSize) = m := by
      rw [hsum]
      exact remainsOf_eq (by omega)
    have hfirst : (pbuff.take (fileBlockSize - n % fileBlockSize)).length =
        fileBlockSize - n % fileBlockSize := by
      rw [List.length_take]
      omega
    have hwritten : Written fileBlockSize f.list
        (f.list.modify (n / fileBlockSize) fun b =>
          b.fill (n % fileBlockSize) (pbuff.take (fileBlockSize - n % fileBlockSize)))
        (n / fileBlockSize * fileBlockSize + n % fileBlockSize)
        (pbuff.take (fileBlockSize - n % fileBlockSize)) := written_modify hnode (by omega)
    rw [hpos] at hwritten
    obtain ⟨list', hblocks, hwritten'⟩ := @writeBlocks_spec q (n / fileBlockSize + 1)
      (pbuff.drop (fileBlockSize - n % fileBlockSize)) _
      (by rw [hwritten.1]; omega : n / fileBlockSize + 1 + q ≤
        (f.list.modify (n / fileBlockSize) fun b =>
          b.fill (n % fileBlockSize) (pbuff.take (fileBlockSize - n % fileBlockSize))).length)
      (by rw [List.length_drop]; omega)
    rw [hq, hblocks, Option.bind_eq_bind, Option.bind_some]
    dsimp only
    have hlist' : list'.length = f.list.length := hwritten'.1.trans hwritten.1
    rw [hremains, if_neg (by omega)]
    have hrest : (((pbuff.drop (fileBlockSize - n % fileBlockSize)).drop
        (q * fileBlockSize)).take m) = (pbuff.drop (fileBlockSize - n % fileBlockSize)).drop
        (q * fileBlockSize) := by
      refine List.take_of_length_le ?_
      simp only [List.length_drop]
      omega
    have hend : Written fileBlockSize list'
        (list'.modify (n / fileBlockSize + 1 + q) fun b => b.fill 0
          ((pbuff.drop (fileBlockSize - n % fileBlockSize)).drop (q * fileBlockSize)))
        ((n / fileBlockSize + 1 + q) * fileBlockSize + 0)
        ((pbuff.drop (fileBlockSize - n % fileBlockSize)).drop (q * fileBlockSize)) :=
      written_modify (by omega) (by simp only [List.length_drop]; omega)
    refine ⟨_, by rw [hrest, hp]; rfl, ?_⟩
    have hmiddle : ((pbuff.drop (fileBlockSize - n % fileBlockSize)).take
        (q * fileBlockSize)).length = q * fileBlockSize := by
      rw [List.length_take, List.length_drop]
      omega
    have hboth := hwritten.append (by
      rw [hfirst, hstart]
      exact hwritten')
    have hplace : n + (pbuff.take (fileBlockSize - n % fileBlockSize) ++
        (pbuff.drop (fileBlockSize - n % fileBlockSize)).take (q * fileBlockSize)).length =
        (n / fileBlockSize + 1 + q) * fileBlockSize + 0 := by
      rw [List.length_append, hfirst, hmiddle, ← Nat.add_assoc, hstart]
      ring
    have hall := hboth.append (by
      rw [hplace]
      exact hend)
    rwa [List.append_assoc, List.take_append_drop, List.take_append_drop] at hall

/-- The blocks that the allocator has to give for a write. -/
lemma blocks_eq {total p size : ℕ} (hp : p ≤ total) :
    total / fileBlockSize + 1 +
        (if size ≤ total - p ∨
            size - (total - p) < fileBlockSize - total % fileBlockSize then 0
        else if total % fileBlockSize ≠ 0 then
          (size - (total - p) - (fileBlockSize - total % fileBlockSize)) / fileBlockSize + 1
        else (size - (total - p)) / fileBlockSize) =
      max total (p + size) / fileBlockSize + 1 := by
  unfold fileBlockSize
  split_ifs <;> omega

lemma exists_write (h : f.Holds g) {pbuff : List UInt8}
    (hroom : g.write + pbuff.length < (f.list.length + f.allocator.length) * fileBlockSize)
    (hsize : pbuff.length < 2 ^ 31) :
    ∃ f', f.write pbuff = some (pbuff.length, f') ∧ f'.Holds (g.put pbuff) ∧
      (f'.list.length + f'.allocator.length) = f.list.length + f.allocator.length := by
  have htotal := h.total
  have hle := g.write_le
  have hnodes := h.nodes
  rw [write, h.wr, pointerAt]
  dsimp only
  have hblocks := @blocks_eq f.fileTotalLen g.write pbuff.length (by omega)
  rw [← h.nodes] at hblocks
  generalize hn : (if pbuff.length ≤ f.fileTotalLen - g.write ∨
      pbuff.length - (f.fileTotalLen - g.write) < fileBlockSize - f.fileTotalLen % fileBlockSize
      then 0
    else if f.fileTotalLen % fileBlockSize ≠ 0 then
      (pbuff.length - (f.fileTotalLen - g.write) -
        (fileBlockSize - f.fileTotalLen % fileBlockSize)) / fileBlockSize + 1
    else (pbuff.length - (f.fileTotalLen - g.write)) / fileBlockSize) = n at *
  have htotal_lt := h.total_lt
  have hmax : max f.fileTotalLen (g.write + pbuff.length) <
      (f.list.length + f.allocator.length) * fileBlockSize := by
    refine max_lt ?_ hroom
    rw [Nat.add_mul]
    rw [Nat.mul_comm] at htotal_lt
    omega
  have hgive : n ≤ f.allocator.length := by
    have := (Nat.div_lt_iff_lt_mul fileBlockSize_pos).mpr hmax
    omega
  have hnew : (f.appendNodes n).2.list.length = f.list.length + n := by
    simp [appendNodes, hgive]
  have hlt : max f.fileTotalLen (g.write + pbuff.length) <
      (f.appendNodes n).2.list.length * fileBlockSize := by
    rw [hnew, hblocks, Nat.succ_mul]
    have := Nat.div_add_mod' (max f.fileTotalLen (g.write + pbuff.length)) fileBlockSize
    have := mod_lt_block (max f.fileTotalLen (g.write + pbuff.length))
    omega
  obtain ⟨list', hbytes, hwritten⟩ := @exists_writeBytes (f.appendNodes n).2 g.write pbuff h.wr
    ((le_max_right _ _).trans_lt hlt) hsize
  have hi : (f.appendNodes n).1 = n := min_eq_left hgive
  rw [hi, if_neg (not_not.mpr rfl), List.take_length, hbytes]
  have hslice : slice fileBlockSize (f.appendNodes n).2.list 0 f.fileTotalLen = g.cells := by
    rw [← h.cells]
    exact slice_append_left (by omega) _
  have hcap : list'.length + (f.appendNodes n).2.allocator.length =
      f.list.length + f.allocator.length := by
    rw [hwritten.1, hnew]
    simp only [appendNodes, List.length_drop]
    omega
  rw [Nat.mul_comm] at hlt
  have hcells := hwritten.slice_zero (by omega : g.write ≤ f.fileTotalLen)
    ((le_max_left _ _).trans hlt.le) ((le_max_right _ _).trans hlt.le)
  rw [hslice] at hcells
  refine ⟨_, rfl, ⟨hcells, ?_, h.rd, rfl, ?_⟩, hcap⟩
  · exact hwritten.1.trans (hnew.trans hblocks)
  · dsimp only
    rw [hcap]
    exact h.memory

end MemFile

end SteepSystem.MemFiles
