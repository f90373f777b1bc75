import SteepSystem.Streams.Content

/-!
The scan for the end of a message. It goes downwards from the last byte, so that it finds the last
dot that ends a message, and it reads what stands in memory behind a block.
-/

namespace SteepSystem.Streams

namespace Stream

variable {s t : Stream}

/-- What the scan takes the byte at `p` for. -/
def hitAt (s : Stream) (p : ℕ) : Option EomResult :=
  if p < 2 ∨ s.byteAt p ≠ dot then none
  else if p / streamBlockSize = s.pnodeWr ∧ p + 1 = s.wrTotalPos then none
  else
    compareTemp (s.byteAt (p - 2)) (s.byteAt (p - 1)) (s.byteAt (p + 1))
      (if p / streamBlockSize = s.pnodeWr ∧ p + 2 = s.wrTotalPos then 0 else s.byteAt (p + 2))

lemma div_add {k j : ℕ} (h : j < streamBlockSize) :
    (k * streamBlockSize + j) / streamBlockSize = k := by
  rw [Nat.mul_comm, Nat.mul_add_div streamBlockSize_pos, Nat.div_eq_of_lt h, Nat.add_zero]

lemma tempBefore_eq {k j : ℕ} (h : j < streamBlockSize) :
    s.tempBefore k j =
      if k * streamBlockSize + j < 2 then none
      else some (s.byteAt (k * streamBlockSize + j - 2), s.byteAt (k * streamBlockSize + j - 1)) := by
  have hsize : streamBlockSize = 65536 := rfl
  unfold tempBefore
  by_cases h2 : 2 ≤ j
  · rw [if_neg (show ¬ j = 0 by omega), if_neg (show ¬ j = 1 by omega),
      if_neg (show ¬ k * streamBlockSize + j < 2 by omega), Nat.add_sub_assoc h2,
      Nat.add_sub_assoc (by omega), byteAt_mul_add (by omega), byteAt_mul_add (by omega)]
  rcases Nat.eq_zero_or_pos k with rfl | hk
  · rw [if_pos (show 0 * streamBlockSize + j < 2 by omega), if_pos rfl, if_pos rfl]
    split_ifs <;> first | rfl | omega
  obtain ⟨m, rfl⟩ := Nat.exists_eq_succ_of_ne_zero hk.ne'
  have hm : m.succ * streamBlockSize = m * streamBlockSize + streamBlockSize :=
    Nat.succ_mul m streamBlockSize
  rw [if_neg (show ¬ m.succ * streamBlockSize + j < 2 by omega), if_neg (Nat.succ_ne_zero m),
    if_neg (Nat.succ_ne_zero m)]
  obtain rfl | rfl : j = 0 ∨ j = 1 := by omega
  · rw [if_pos rfl,
      show m.succ * streamBlockSize + 0 - 2 = m * streamBlockSize + (streamBlockSize - 2) by omega,
      show m.succ * streamBlockSize + 0 - 1 = m * streamBlockSize + (streamBlockSize - 1) by omega,
      byteAt_mul_add (by omega), byteAt_mul_add (by omega)]
    rfl
  · rw [if_neg one_ne_zero, if_pos rfl,
      show m.succ * streamBlockSize + 1 - 2 = m * streamBlockSize + (streamBlockSize - 1) by omega,
      show m.succ * streamBlockSize + 1 - 1 = m.succ * streamBlockSize + 0 by omega,
      byteAt_mul_add (by omega), byteAt_mul_add (by omega)]
    rfl

/-- The bytes behind a dot in the block that is written to. -/
lemma tempAfter_last (hv : s.Valid) {j : ℕ} (hj : j < s.wrBlockPos) :
    s.tempAfter 0 s.pnodeWr s.wrBlockPos j =
      if s.pnodeWr * streamBlockSize + j + 1 = s.wrTotalPos then none
      else some (s.byteAt (s.pnodeWr * streamBlockSize + j + 1),
        if s.pnodeWr * streamBlockSize + j + 2 = s.wrTotalPos then 0
        else s.byteAt (s.pnodeWr * streamBlockSize + j + 2)) := by
  have hwr := wrTotalPos_eq hv
  have hlt := wrBlockPos_lt hv
  unfold tempAfter
  rcases Nat.lt_trichotomy (j + 2) s.wrBlockPos with h | h | h
  · rw [if_neg h.ne, if_neg (show ¬ j + 1 = s.wrBlockPos by omega),
      if_neg (show ¬ s.pnodeWr * streamBlockSize + j + 1 = s.wrTotalPos by omega),
      if_neg (show ¬ s.pnodeWr * streamBlockSize + j + 2 = s.wrTotalPos by omega), Nat.add_assoc,
      Nat.add_assoc, byteAt_mul_add (by omega), byteAt_mul_add (by omega)]
  · rw [if_pos h, if_neg (show ¬ s.pnodeWr * streamBlockSize + j + 1 = s.wrTotalPos by omega),
      if_pos (show s.pnodeWr * streamBlockSize + j + 2 = s.wrTotalPos by omega), if_pos rfl,
      Nat.add_assoc, byteAt_mul_add (by omega)]
  · rw [if_neg h.ne', if_pos (show j + 1 = s.wrBlockPos by omega), if_pos rfl,
      if_pos (show s.pnodeWr * streamBlockSize + j + 1 = s.wrTotalPos by omega)]

/-- In a block before it, they may stand in the next one. -/
lemma tempAfter_before {i k j : ℕ} (hi : i ≠ 0) (hk : k + 1 < s.list.length)
    (hj : j < streamBlockSize) :
    s.tempAfter i k streamBlockSize j =
      some (s.byteAt (k * streamBlockSize + j + 1), s.byteAt (k * streamBlockSize + j + 2)) := by
  have hnext : ∀ b, s.list[k + 1]? = some b → b = s.block (k + 1) := by
    intro b hb
    rw [block, List.getD_eq_getElem?_getD, hb, Option.getD_some]
  have hstep : (k + 1) * streamBlockSize = k * streamBlockSize + streamBlockSize :=
    Nat.succ_mul k streamBlockSize
  have hpos := streamBlockSize_pos
  unfold tempAfter
  rcases Nat.lt_trichotomy (j + 2) streamBlockSize with h | h | h
  · rw [if_neg (by omega), if_neg (by omega), Nat.add_assoc, Nat.add_assoc,
      byteAt_mul_add (by omega), byteAt_mul_add (by omega)]
  · rw [if_pos h, if_neg hi, List.getElem?_eq_getElem hk]
    dsimp only
    rw [hnext _ (List.getElem?_eq_getElem hk), Nat.add_assoc, byteAt_mul_add (by omega),
      show k * streamBlockSize + j + 2 = (k + 1) * streamBlockSize + 0 by omega,
      byteAt_mul_add hpos]
  · rw [if_neg (by omega), if_pos (by omega), if_neg hi, List.getElem?_eq_getElem hk]
    dsimp only
    have hsize : streamBlockSize = 65536 := rfl
    rw [hnext _ (List.getElem?_eq_getElem hk),
      show k * streamBlockSize + j + 1 = (k + 1) * streamBlockSize + 0 by omega,
      show k * streamBlockSize + j + 2 = (k + 1) * streamBlockSize + 1 by omega,
      byteAt_mul_add hpos, byteAt_mul_add (by omega)]

/-- What is scanned of the block that is `i` before the last one. -/
def count (s : Stream) (i : ℕ) : ℕ := if i = 0 then s.wrBlockPos else streamBlockSize

lemma count_le (hv : s.Valid) (i : ℕ) : s.count i ≤ streamBlockSize := by
  unfold count
  split
  · exact (wrBlockPos_lt hv).le
  · rfl

/-- One step of the loop: the code looks at the dot as `hitAt` does. -/
lemma scanBlock_succ (hv : s.Valid) {i j untilPos : ℕ} (hi : i ≤ s.pnodeWr) (hj : j < s.count i)
    (huntil : untilPos ≤ j) :
    s.scanBlock i (s.pnodeWr - i) (s.count i) untilPos (j + 1) =
      (s.hitAt ((s.pnodeWr - i) * streamBlockSize + j)).elim
        (if (s.pnodeWr - i) * streamBlockSize + j < 2 ∧ s.block (s.pnodeWr - i) j = dot then .noneEom
        else s.scanBlock i (s.pnodeWr - i) (s.count i) untilPos j)
        fun result => .found result j := by
  have hjB := lt_of_lt_of_le hj (count_le hv i)
  have hdiv := div_add (k := s.pnodeWr - i) hjB
  rw [scanBlock, if_neg (by omega), hitAt, tempBefore_eq hjB, byteAt_mul_add hjB]
  by_cases hdot : s.block (s.pnodeWr - i) j = dot
  swap
  · rw [if_neg hdot, if_pos (.inr hdot)]
    simp [hdot]
  rw [if_pos hdot]
  by_cases hhead : (s.pnodeWr - i) * streamBlockSize + j < 2
  · rw [if_pos hhead, if_pos (.inl hhead)]
    simp [hhead, hdot]
  rw [if_neg hhead, if_neg (by simp [hhead, hdot]), hdiv]
  dsimp only
  have hwr := wrTotalPos_eq hv
  have hnode := hv.lt
  have hafter : s.tempAfter i (s.pnodeWr - i) (s.count i) j =
      if s.pnodeWr - i = s.pnodeWr ∧ (s.pnodeWr - i) * streamBlockSize + j + 1 = s.wrTotalPos then
        none
      else some (s.byteAt ((s.pnodeWr - i) * streamBlockSize + j + 1),
        if s.pnodeWr - i = s.pnodeWr ∧ (s.pnodeWr - i) * streamBlockSize + j + 2 = s.wrTotalPos then
          0
        else s.byteAt ((s.pnodeWr - i) * streamBlockSize + j + 2)) := by
    unfold count at hj ⊢
    by_cases hi0 : i = 0
    · subst hi0
      rw [if_pos rfl] at hj ⊢
      rw [Nat.sub_zero, tempAfter_last hv hj]
      simp
    · have hne : s.pnodeWr - i ≠ s.pnodeWr := by omega
      rw [if_neg hi0, tempAfter_before hi0 (by omega) hjB]
      simp [hne]
  have hgo : ¬ ((s.pnodeWr - i) * streamBlockSize + j < 2 ∧ s.block (s.pnodeWr - i) j = dot) :=
    fun h => hhead h.1
  rw [hafter, if_neg hgo]
  by_cases hend : s.pnodeWr - i = s.pnodeWr ∧
      (s.pnodeWr - i) * streamBlockSize + j + 1 = s.wrTotalPos
  · rw [if_pos hend, if_pos hend, Option.elim_none]
  · rw [if_neg hend, if_neg hend]
    dsimp only
    cases compareTemp _ _ _ _ <;> rfl

lemma hitAt_of_lt {p : ℕ} (h : p < 2) : s.hitAt p = none := by
  rw [hitAt, if_pos (.inl h)]

/-- What the scan of a block tells of its first `n` bytes. -/
def Scans (s : Stream) (k untilPos n : ℕ) : Scanned → Prop
  | .found result j => untilPos ≤ j ∧ j < n ∧ s.hitAt (k * streamBlockSize + j) = some result ∧
      ∀ j', j < j' → j' < n → s.hitAt (k * streamBlockSize + j') = none
  | .noneEom => k = 0 ∧ ∀ j' < n, s.hitAt (k * streamBlockSize + j') = none
  | .next => ∀ j', untilPos ≤ j' → j' < n → s.hitAt (k * streamBlockSize + j') = none

lemma Scans.succ {k untilPos j : ℕ} {scanned : Scanned} (h : s.Scans k untilPos j scanned)
    (hj : s.hitAt (k * streamBlockSize + j) = none) : s.Scans k untilPos (j + 1) scanned := by
  have hstep : ∀ j' < j + 1, (j' < j → s.hitAt (k * streamBlockSize + j') = none) →
      s.hitAt (k * streamBlockSize + j') = none := by
    intro j' hlt h
    rcases Nat.lt_succ_iff_lt_or_eq.mp hlt with hlt | rfl
    · exact h hlt
    · exact hj
  cases scanned with
  | found result i =>
    obtain ⟨huntil, hlt, hhit, hnone⟩ := h
    exact ⟨huntil, by omega, hhit, fun j' hi hlt' => hstep j' hlt' (hnone j' hi)⟩
  | noneEom => exact ⟨h.1, fun j' hlt' => hstep j' hlt' (h.2 j')⟩
  | next => exact fun j' hu hlt' => hstep j' hlt' (h j' hu)

lemma scanBlock_spec (hv : s.Valid) {i : ℕ} (hi : i ≤ s.pnodeWr) (untilPos n : ℕ)
    (hn : n ≤ s.count i) :
    s.Scans (s.pnodeWr - i) untilPos n
      (s.scanBlock i (s.pnodeWr - i) (s.count i) untilPos n) := by
  induction n with
  | zero => exact fun j' _ h => absurd h (Nat.not_lt_zero j')
  | succ j ih =>
    by_cases huntil : j < untilPos
    · rw [scanBlock, if_pos huntil]
      intro j' h h'
      omega
    rw [scanBlock_succ hv hi hn (by omega)]
    cases hhit : s.hitAt ((s.pnodeWr - i) * streamBlockSize + j) with
    | some result => exact ⟨by omega, Nat.lt_succ_self j, hhit, fun j' h h' => by omega⟩
    | none =>
      rw [Option.elim_none]
      split
      · rename_i hhead
        refine ⟨?_, fun j' hj' => hitAt_of_lt (by omega)⟩
        have hsize : streamBlockSize = 65536 := rfl
        by_contra hk
        have := Nat.le_mul_of_pos_left streamBlockSize (Nat.pos_of_ne_zero hk)
        omega
      · exact (ih (by omega)).succ hhit

/-- The last dot that ends a message, of those that have not been scanned before. -/
def Finds (s : Stream) : Option (EomResult × ℕ) → Prop
  | some (result, p) => s.lastEomParse ≤ p ∧ p < s.wrTotalPos ∧ s.hitAt p = some result ∧
      ∀ q, p < q → q < s.wrTotalPos → s.hitAt q = none
  | none => ∀ q, s.lastEomParse ≤ q → q < s.wrTotalPos → s.hitAt q = none

/-- The end of a block is within the stream. -/
lemma block_end_le (hv : s.Valid) (i : ℕ) (hi : i ≤ s.pnodeWr) :
    (s.pnodeWr - i) * streamBlockSize + s.count i ≤ s.wrTotalPos := by
  have hwr := wrTotalPos_eq hv
  unfold count
  split
  · rename_i h
    rw [h, Nat.sub_zero]
    omega
  · have := Nat.mul_le_mul_right streamBlockSize (show s.pnodeWr - i + 1 ≤ s.pnodeWr by omega)
    rw [Nat.succ_mul] at this
    omega

lemma scanBlocks_zero (s : Stream) (i : ℕ) :
    s.scanBlocks 0 i =
      match s.scanBlock i (s.pnodeWr - i) (s.count i) (s.lastEomParse % streamBlockSize)
        (s.count i) with
      | .found result j =>
        some (result, (s.wrTotalPos / streamBlockSize - i) * streamBlockSize + j)
      | _ => none := by
  rw [scanBlocks]
  unfold count
  rw [if_pos rfl]
  cases s.scanBlock _ _ _ _ _ <;> rfl

lemma scanBlocks_succ (s : Stream) (left i : ℕ) (h : s.pnodeWr - i ≠ 0) :
    s.scanBlocks (left + 1) i =
      match s.scanBlock i (s.pnodeWr - i) (s.count i) 0 (s.count i) with
      | .found result j =>
        some (result, (s.wrTotalPos / streamBlockSize - i) * streamBlockSize + j)
      | .noneEom => none
      | .next => s.scanBlocks left (i + 1) := by
  rw [scanBlocks]
  unfold count
  rw [if_neg (Nat.succ_ne_zero left)]
  cases s.scanBlock _ _ _ _ _ <;> first | rfl | exact if_neg h

/-- A position is in the block or behind it. -/
lemma hitAt_of_block {k c a : ℕ}
    (hbehind : ∀ q, k * streamBlockSize + c ≤ q → q < s.wrTotalPos → s.hitAt q = none)
    (ha : k * streamBlockSize ≤ a)
    (h : ∀ j < c, a ≤ k * streamBlockSize + j → s.hitAt (k * streamBlockSize + j) = none) :
    ∀ q, a ≤ q → q < s.wrTotalPos → s.hitAt q = none := by
  intro q hq hq'
  rcases Nat.lt_or_ge q (k * streamBlockSize + c) with hlt | hge
  · have := h (q - k * streamBlockSize) (by omega) (by omega)
    rwa [show k * streamBlockSize + (q - k * streamBlockSize) = q by omega] at this
  · exact hbehind q hge hq'

/-- The blocks behind have nothing, and the scan goes on downwards. `m` is the block where it
ends. -/
lemma scanBlocks_finds (hv : s.Valid) {m : ℕ}
    (hm : s.lastEomParse = m * streamBlockSize + s.lastEomParse % streamBlockSize)
    (left i : ℕ) (hleft : m + (left + i) = s.pnodeWr)
    (hbehind : ∀ q, (s.pnodeWr - i) * streamBlockSize + s.count i ≤ q → q < s.wrTotalPos →
      s.hitAt q = none) :
    s.Finds (s.scanBlocks left i) := by
  have hmod := Nat.mod_lt s.lastEomParse streamBlockSize_pos
  induction left generalizing i with
  | zero =>
    obtain rfl : m = s.pnodeWr - i := by omega
    have hend := block_end_le hv i (by omega)
    have hspec := scanBlock_spec hv (show i ≤ s.pnodeWr by omega)
      (s.lastEomParse % streamBlockSize) (s.count i) le_rfl
    rw [scanBlocks_zero, ← hv.node]
    cases hscan : s.scanBlock i (s.pnodeWr - i) (s.count i) (s.lastEomParse % streamBlockSize)
      (s.count i) with
    | found result j =>
      rw [hscan] at hspec
      obtain ⟨huntil, hlt, hhit, hnone⟩ := hspec
      refine ⟨by omega, by omega, hhit, ?_⟩
      exact hitAt_of_block hbehind (by omega) fun j' hj' hle => hnone j' (by omega) hj'
    | noneEom =>
      rw [hscan] at hspec
      exact hitAt_of_block hbehind (by omega) fun j' hj' _ => hspec.2 j' hj'
    | next =>
      rw [hscan] at hspec
      exact hitAt_of_block hbehind (by omega) fun j' hj' hle => hspec j' (by omega) hj'
  | succ left ih =>
    have hpos : s.pnodeWr - i ≠ 0 := by omega
    have hend := block_end_le hv i (by omega)
    have hfrom := Nat.mul_le_mul_right streamBlockSize (show m + 1 ≤ s.pnodeWr - i by omega)
    rw [Nat.succ_mul] at hfrom
    have hspec := scanBlock_spec hv (show i ≤ s.pnodeWr by omega) 0 (s.count i) le_rfl
    rw [scanBlocks_succ _ _ _ hpos, ← hv.node]
    cases hscan : s.scanBlock i (s.pnodeWr - i) (s.count i) 0 (s.count i) with
    | found result j =>
      rw [hscan] at hspec
      obtain ⟨huntil, hlt, hhit, hnone⟩ := hspec
      refine ⟨by omega, by omega, hhit, ?_⟩
      exact hitAt_of_block hbehind (by omega) fun j' hj' hle => hnone j' (by omega) hj'
    | noneEom =>
      rw [hscan] at hspec
      exact absurd hspec.1 hpos
    | next =>
      rw [hscan] at hspec
      have hblock : (s.pnodeWr - (i + 1)) * streamBlockSize + s.count (i + 1) =
          (s.pnodeWr - i) * streamBlockSize := by
        rw [count, if_neg (Nat.succ_ne_zero i), ← Nat.succ_mul]
        congr 1
        omega
      refine ih (i + 1) (by omega) ?_
      rw [hblock]
      exact hitAt_of_block hbehind le_rfl fun j' hj' _ => hspec j' (Nat.zero_le _) hj'

/-- **The scan finds the last dot that ends a message, if there is one.** -/
lemma scanBlocks_spec (hv : s.Valid) (hle : s.lastEomParse ≤ s.wrTotalPos) :
    s.Finds (s.scanBlocks
      (s.wrTotalPos / streamBlockSize - s.lastEomParse / streamBlockSize) 0) := by
  have hdiv := Nat.div_le_div_right (c := streamBlockSize) hle
  rw [← hv.node] at hdiv ⊢
  refine scanBlocks_finds hv (Nat.div_add_mod' _ _).symm _ _ (by omega) fun q hq hq' => ?_
  have hwr := wrTotalPos_eq hv
  rw [count, if_pos rfl, Nat.sub_zero] at hq
  omega

end Stream

end SteepSystem.Streams
