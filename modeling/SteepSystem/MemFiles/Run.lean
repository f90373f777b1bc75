import SteepSystem.Lib.Runs
import SteepSystem.MemFiles.Lines

/-!
Runs of a file in memory, against the scroll that the same calls make.
-/

namespace SteepSystem.MemFiles

open SteepSystem.Lib SteepSystem.Lib.Blocks

namespace MemFile

inductive Call
  | write (pbuff : List UInt8)
  | writeline (pbuff : List UInt8)
  | read (size : ℕ)
  | readline (size : ℕ)
  | seek (type : PointerType) (offset : ℤ) (opt : SeekOption)
  /-- The file becomes a copy of another one. -/
  | copy (src : MemFile)
  | clear

inductive Output
  | done
  | size (n : ℕ)
  | bytes (bytes : Option (List UInt8))

def call (f : MemFile) : Call → Option (Output × MemFile)
  | .write pbuff => (f.write pbuff).map fun r => (.size r.1, r.2)
  | .writeline pbuff => (f.writeline pbuff).map fun r => (.size r.1, r.2)
  | .read size => (f.read size).map fun r => (.bytes r.1, r.2)
  | .readline size => (f.readline size).map fun r => (.bytes r.1, r.2)
  | .seek type offset opt => some (.done, f.seek type offset opt)
  | .copy src => some (.size (src.copy f).1, (src.copy f).2)
  | .clear => some (.done, f.clear)

/-- What a call should do to the scroll. -/
def Call.OnScroll (g : Scroll UInt8) : Call → Output → Scroll UInt8 → Prop
  | .write pbuff, o, k => o = .size pbuff.length ∧ k = g.put pbuff
  | .writeline pbuff, o, k => o = .size pbuff.length ∧ k = g.put (pbuff ++ [newline])
  | .read size, o, k =>
    o = .bytes (if g.rest = [] then none else some (g.rest.take size)) ∧
      k = g.readAt (g.read + size)
  | .readline size, o, k => o = .bytes (scrollLine g size).1 ∧ k = (scrollLine g size).2
  | .seek .readPtr offset opt, o, k =>
    o = .done ∧ k = g.readAt (g.clamp (target g g.read offset opt))
  | .seek .writePtr offset opt, o, k =>
    o = .done ∧ k = g.writeAt (g.clamp (target g g.write offset opt))
  | .copy src, o, k => src.Holds k ∧ o = .size k.cells.length
  | .clear, o, k => o = .done ∧ k = Scroll.empty

def capacity (f : MemFile) : ℕ := (f.list.length + f.allocator.length) * fileBlockSize

/-- There are blocks enough, a file that is copied is one, and offsets are of their type. -/
def Call.Pre (f : MemFile) : Call → Prop
  | .write pbuff => f.wr.totalPos + pbuff.length < f.capacity
  | .writeline pbuff => f.wr.totalPos + pbuff.length + 1 < f.capacity
  | .read _ => True
  | .readline _ => True
  | .seek _ offset _ => -2 ^ 63 ≤ offset ∧ offset < 2 ^ 63
  | .copy src => (∃ g, src.Holds g) ∧ src.list.length ≤ f.list.length + f.allocator.length
  | .clear => True

def Call.Clear (f : MemFile) : Call → Prop
  | .write pbuff => pbuff.length < 2 ^ 31
  | .writeline pbuff => pbuff.length < 2 ^ 31
  | .read size => min size (f.fileTotalLen - f.rd.totalPos) < 2 ^ 31
  | .readline size => f.LineClear size
  | .seek .readPtr offset opt => SeekClear f.rd.totalPos offset opt
  | .seek .writePtr offset opt => SeekClear f.wr.totalPos offset opt
  | .copy src => src.rd.totalPos < fileBlockSize
  | .clear => True

variable {f : MemFile} {g : Scroll UInt8}

lemma holds_seek (h : f.Holds g) {type : PointerType} {offset : ℤ} {opt : SeekOption}
    (hclear : (Call.seek type offset opt).Clear f) :
    ∃ k, (Call.seek type offset opt).OnScroll g .done k ∧ (f.seek type offset opt).Holds k := by
  have hclamp (n : ℤ) : g.clamp n ≤ g.cells.length := Nat.min_le_right _ _
  cases type with
  | readPtr =>
    have hclear : SeekClear f.rd.totalPos offset opt := hclear
    rw [h.rd] at hclear
    refine ⟨_, ⟨rfl, rfl⟩, ?_⟩
    rw [seek, h.rd, seekPointer_eq h g.read_le hclear]
    exact h.setRd (hclamp _)
  | writePtr =>
    have hclear : SeekClear f.wr.totalPos offset opt := hclear
    rw [h.wr] at hclear
    refine ⟨_, ⟨rfl, rfl⟩, ?_⟩
    rw [seek, h.wr, seekPointer_eq h g.write_le hclear]
    exact h.setWr (hclamp _)

lemma holds_clear (h : f.Holds g) : f.clear.Holds Scroll.empty := by
  have hnodes := h.nodes
  have hmemory := h.memory
  refine ⟨rfl, ?_, rfl, rfl, ?_⟩
  · simp [MemFile.clear, hnodes]
  · refine lt_of_eq_of_lt ?_ hmemory
    simp only [MemFile.clear, List.length_take, List.length_append, List.length_drop]
    congr 1
    omega

lemma exists_writeline (h : f.Holds g) {pbuff : List UInt8}
    (hroom : g.write + pbuff.length + 1 < (f.list.length + f.allocator.length) * fileBlockSize)
    (hsize : pbuff.length < 2 ^ 31) :
    ∃ f', f.writeline pbuff = some (pbuff.length, f') ∧ f'.Holds (g.put (pbuff ++ [newline])) := by
  obtain ⟨f', hf', hholds, hcap⟩ := exists_write h (by omega) hsize
  have hroom' : (g.put pbuff).write + [newline].length <
      (f'.list.length + f'.allocator.length) * fileBlockSize := by
    rw [hcap]
    exact hroom
  obtain ⟨f'', hf'', hholds', -⟩ := exists_write hholds hroom' (by simp)
  rw [Scroll.put_append] at hholds'
  refine ⟨f'', ?_, hholds'⟩
  rw [writeline, hf', Option.bind_eq_bind, Option.bind_some]
  dsimp only
  rw [if_pos rfl, hf'', Option.bind_some]
  rfl

lemma exists_copy {src : MemFile} (h : f.Holds g) {k : Scroll UInt8} (hsrc : src.Holds k)
    (hroom : src.list.length ≤ f.list.length + f.allocator.length)
    (hclear : k.read < fileBlockSize) :
    (src.copy f).1 = k.cells.length ∧ (src.copy f).2.Holds k := by
  have hpos : 0 < f.list.length := h.nodes ▸ Nat.succ_pos _
  have hsrcpos : 0 < src.list.length := hsrc.nodes ▸ Nat.succ_pos _
  have hlt := hsrc.total_lt
  have hgive : src.list.length - 1 ≤ f.clear.allocator.length := by
    simp only [MemFile.clear, List.length_append, List.length_drop]
    omega
  have hlist : (f.clear.appendNodes (src.list.length - 1)).2.list.length = src.list.length := by
    simp only [appendNodes, MemFile.clear, List.length_append, List.length_take, List.length_drop]
    omega
  rw [MemFile.copy]
  dsimp only
  have hi : (f.clear.appendNodes (src.list.length - 1)).1 = src.list.length - 1 :=
    min_eq_left hgive
  rw [if_neg (not_not.mpr hi)]
  refine ⟨hsrc.total, ⟨?_, ?_, ?_, ?_, ?_⟩⟩
  · rw [← hsrc.cells]
    refine List.map_congr_left fun p hp => ?_
    have hp : p < src.fileTotalLen := List.mem_range.mp hp
    rw [Nat.zero_add]
    have hnode : p / fileBlockSize < src.list.length := Nat.div_lt_of_lt_mul (by omega)
    rw [cell, cell, List.getD_eq_getElem _ _ (by rw [List.length_zipWith, hlist]; omega),
      List.getElem_zipWith, if_pos (mod_lt_block p), List.getD_eq_getElem _ _ hnode]
  · dsimp only
    rw [List.length_zipWith, hlist, min_self]
    exact hsrc.nodes
  · dsimp only
    rw [hsrc.rd, pointerAt, Nat.div_eq_of_lt hclear]
  · dsimp only
    rw [hsrc.wr]
    rfl
  · refine lt_of_eq_of_lt ?_ h.memory
    dsimp only
    rw [List.length_zipWith, hlist, min_self]
    simp only [appendNodes, MemFile.clear, List.length_append, List.length_drop]
    congr 1
    omega

/-- **One call** comes to an end and does on the scroll what it should. -/
lemma exists_call (h : f.Holds g) {c : Call} (hpre : c.Pre f) (hclear : c.Clear f) :
    ∃ o f' k, f.call c = some (o, f') ∧ c.OnScroll g o k ∧ f'.Holds k := by
  cases c with
  | write pbuff =>
    have hpre : f.wr.totalPos + pbuff.length < f.capacity := hpre
    rw [h.wr] at hpre
    obtain ⟨f', hf', hholds, -⟩ := exists_write h hpre hclear
    exact ⟨_, f', _, by rw [call, hf']; rfl, ⟨rfl, rfl⟩, hholds⟩
  | writeline pbuff =>
    have hpre : f.wr.totalPos + pbuff.length + 1 < f.capacity := hpre
    rw [h.wr] at hpre
    obtain ⟨f', hf', hholds⟩ := exists_writeline h hpre hclear
    exact ⟨_, f', _, by rw [call, hf']; rfl, ⟨rfl, rfl⟩, hholds⟩
  | read size =>
    have hclear : min size (f.fileTotalLen - f.rd.totalPos) < 2 ^ 31 := hclear
    rw [h.rd, h.total] at hclear
    obtain ⟨f', hf', hholds⟩ := exists_read h (by rw [Scroll.length_rest]; exact hclear)
    exact ⟨_, f', _, by rw [call, hf']; rfl, ⟨rfl, rfl⟩, hholds⟩
  | readline size =>
    obtain ⟨f', hf', hholds⟩ := exists_readline h hclear
    exact ⟨_, f', _, by rw [call, hf']; rfl, ⟨rfl, rfl⟩, hholds⟩
  | seek type offset opt =>
    obtain ⟨k, hk, hholds⟩ := holds_seek h hclear
    exact ⟨_, _, k, rfl, hk, hholds⟩
  | copy src =>
    obtain ⟨⟨k, hk⟩, hroom⟩ := hpre
    have hclear : src.rd.totalPos < fileBlockSize := hclear
    rw [hk.rd] at hclear
    obtain ⟨hsize, hholds⟩ := exists_copy h hk hroom hclear
    exact ⟨_, _, k, rfl, ⟨hk, by rw [hsize]⟩, hholds⟩
  | clear => exact ⟨_, _, _, rfl, ⟨rfl, rfl⟩, holds_clear h⟩

/-! ### Runs -/

def Documented (f : MemFile) (i : Call × Output) : Prop := i.1.Pre f

def Admitted (f : MemFile) (i : Call × Output) : Prop := i.1.Pre f ∧ i.1.Clear f

def Step (f : MemFile) (i : Call × Output) (f' : MemFile) : Prop := f.call i.1 = some (i.2, f')

def ScrollStep (g : Scroll UInt8) (i : Call × Output) (k : Scroll UInt8) : Prop :=
  i.1.OnScroll g i.2 k

lemma holds_init (b : Block UInt8) {allocator : List (Block UInt8)}
    (h : (allocator.length + 1) * fileBlockSize < 2 ^ 63) :
    (init b allocator).Holds Scroll.empty :=
  ⟨rfl, by simp [init], rfl, rfl, by rwa [init, List.length_singleton, Nat.add_comm]⟩

lemma step_keeps (f : MemFile) (g : Scroll UInt8) (i : Call × Output) (f' : MemFile)
    (h : f.Holds g) (hadmits : Admitted f i) (hstep : Step f i f') :
    True ∧ ∃ k, ScrollStep g i k ∧ f'.Holds k := by
  obtain ⟨o, f'', k, hcall, hk, hholds⟩ := exists_call h hadmits.1 hadmits.2
  obtain ⟨rfl, rfl⟩ : i.2 = o ∧ f' = f'' := by
    have := hstep.symm.trans hcall
    simpa using this
  exact ⟨trivial, k, hk, hholds⟩

open Runs in
/-- **A file in memory and its scroll**: in a run of a new file whose calls are all clear, every
call comes to an end and returns what it returns on the scroll, and the file holds the scroll that
the calls make of the empty one. -/
theorem file_holds_of_run (b : Block UInt8) (allocator : List (Block UInt8))
    (calls : List (Call × Output)) (f : MemFile)
    (hmemory : (allocator.length + 1) * fileBlockSize < 2 ^ 63)
    (h : Run Admitted Step (init b allocator) calls f) :
    ∃ g, Run (fun _ _ => True) ScrollStep Scroll.empty calls g ∧ f.Holds g ∧
      ∀ c : Call, c.Pre f → c.Clear f →
        ∃ o f' k, f.call c = some (o, f') ∧ c.OnScroll g o k ∧ f'.Holds k := by
  obtain ⟨g, hrun, hg⟩ := h.refines step_keeps (holds_init b hmemory)
  exact ⟨g, hrun, hg, fun c hpre hclear => exists_call hg hpre hclear⟩

/-- Two bytes written into a block of zeros. -/
def twoWritten : MemFile where
  list := [Block.fill (fun _ => 0) 0 [1, 2]]
  allocator := []
  rd := ⟨0, 0, 0⟩
  wr := ⟨0, 2, 2⟩
  fileTotalLen := 2

open Runs in
theorem file_holds_of_run_two :
    ∃ g, Run (fun _ _ => True) ScrollStep Scroll.empty [(.write [1, 2], .size 2)] g ∧
      twoWritten.Holds g := by
  have hrun : Run Admitted Step (init (fun _ => 0) []) [(.write [1, 2], .size 2)] twoWritten :=
    .cons ⟨show 0 + 2 < 256 by decide, show 2 < 2 ^ 31 by decide⟩ rfl (.nil _)
  obtain ⟨g, hg, hholds, -⟩ := file_holds_of_run (fun _ => 0) [] _ _ (by decide) hrun
  exact ⟨g, hg, hholds⟩

open Runs in
/-- Two bytes are written, and the writing pointer is sent three bytes back: it is then further
behind the end than any file is long. -/
theorem not_file_holds_of_run :
    ¬∀ (b : Block UInt8) (allocator : List (Block UInt8)) (calls : List (Call × Output))
      (f : MemFile), (allocator.length + 1) * fileBlockSize < 2 ^ 63 →
      Run Documented Step (init b allocator) calls f →
        ∃ g, Run (fun _ _ => True) ScrollStep Scroll.empty calls g ∧ f.Holds g := by
  intro h
  have hrun : Run Documented Step (init (fun _ => 0) [])
      [(.write [1, 2], .size 2), (.seek .writePtr (-3) .cur, .done)]
      { twoWritten with wr := ⟨0, 2 ^ 64 - 1, 2 ^ 64 - 1⟩ } :=
    .cons (show 0 + 2 < 256 by decide) rfl
      (.cons (show (-2 ^ 63 : ℤ) ≤ -3 ∧ (-3 : ℤ) < 2 ^ 63 by decide) rfl (.nil _))
  obtain ⟨g, -, hg⟩ := h _ _ _ _ (by decide) hrun
  have hle := g.write_le
  rw [← hg.total] at hle
  have hwr := congrArg Pointer.totalPos hg.wr
  have hwr : 2 ^ 64 - 1 = g.write := hwr
  rw [← hwr] at hle
  exact absurd hle (by decide)

end MemFile

end SteepSystem.MemFiles
