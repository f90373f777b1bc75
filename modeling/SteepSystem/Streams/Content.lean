import SteepSystem.Streams.Model

/-!
The bytes of a stream, over its blocks: what a write appends to them, and what the loop of the
split reads of them.
-/

namespace SteepSystem.Streams

namespace Stream

variable {s t : Stream}

def byteAt (s : Stream) (p : ℕ) : UInt8 := s.block (p / streamBlockSize) (p % streamBlockSize)

def content (s : Stream) : List UInt8 := (List.range s.wrTotalPos).map s.byteAt

/-- The positions fit together. -/
structure Valid (s : Stream) : Prop where
  node : s.pnodeWr = s.wrTotalPos / streamBlockSize
  pos : s.wrBlockPos = s.wrTotalPos % streamBlockSize
  lt : s.pnodeWr < s.list.length

lemma streamBlockSize_pos : 0 < streamBlockSize := by simp [streamBlockSize]

@[simp] lemma length_content (s : Stream) : s.content.length = s.wrTotalPos := by simp [content]

lemma content_getElem? {p : ℕ} (h : p < s.wrTotalPos) : s.content[p]? = some (s.byteAt p) := by
  simp [content, h]

lemma byteAt_mul_add {k j : ℕ} (h : j < streamBlockSize) :
    s.byteAt (k * streamBlockSize + j) = s.block k j := by
  unfold byteAt
  rw [Nat.mul_comm, Nat.mul_add_div streamBlockSize_pos, Nat.div_eq_of_lt h, Nat.add_zero,
    Nat.mul_add_mod, Nat.mod_eq_of_lt h]

/-! ### Writing -/

lemma valid_clear (h : s.list ≠ []) : s.clear.Valid := by
  refine ⟨by simp [clear], by simp [clear], ?_⟩
  have := List.length_pos_iff.mpr h
  simp [clear]
  omega

lemma block_put (h : s.pnodeWr < s.list.length) (bytes : List UInt8) (k j : ℕ) :
    (s.put bytes).block k j =
      if k = s.pnodeWr ∧ s.wrBlockPos ≤ j then bytes.getD (j - s.wrBlockPos) (s.block k j)
      else s.block k j := by
  unfold block put
  dsimp only
  rw [List.getD_eq_getElem?_getD, List.getElem?_modify]
  by_cases hk : k = s.pnodeWr
  · subst hk
    simp [List.getElem?_eq_getElem h]
  · rw [if_neg (by tauto), List.getD_eq_getElem?_getD]
    simp only [if_neg (Ne.symm hk), Option.map_eq_map, Option.map_id']

lemma byteAt_of_blocks {n p : ℕ} (h : ∀ k ≤ n, t.block k = s.block k)
    (hp : p < (n + 1) * streamBlockSize) : t.byteAt p = s.byteAt p := by
  unfold byteAt
  rw [h]
  exact Nat.lt_succ_iff.mp ((Nat.div_lt_iff_lt_mul streamBlockSize_pos).mpr hp)

lemma wrTotalPos_eq (hv : s.Valid) :
    s.wrTotalPos = s.pnodeWr * streamBlockSize + s.wrBlockPos := by
  rw [hv.node, hv.pos, Nat.div_add_mod']

lemma wrBlockPos_lt (hv : s.Valid) : s.wrBlockPos < streamBlockSize := by
  rw [hv.pos]
  exact Nat.mod_lt _ streamBlockSize_pos

lemma valid_of_eq (hlt : s.pnodeWr < s.list.length) (hpos : s.wrBlockPos < streamBlockSize)
    (h : s.wrTotalPos = s.pnodeWr * streamBlockSize + s.wrBlockPos) : s.Valid := by
  refine ⟨?_, ?_, hlt⟩
  · rw [h, Nat.mul_comm, Nat.mul_add_div streamBlockSize_pos, Nat.div_eq_of_lt hpos, Nat.add_zero]
  · rw [h, Nat.mul_comm, Nat.mul_add_mod, Nat.mod_eq_of_lt hpos]

lemma content_of_put (hv : s.Valid) {bytes : List UInt8}
    (hle : bytes.length ≤ streamBlockSize - s.wrBlockPos)
    (hlen : t.wrTotalPos = s.wrTotalPos + bytes.length)
    (h : ∀ k ≤ s.pnodeWr, t.block k = (s.put bytes).block k) :
    t.content = s.content ++ bytes := by
  have hwr := wrTotalPos_eq hv
  have hlt := wrBlockPos_lt hv
  have hbyte : ∀ p < s.wrTotalPos + bytes.length, t.byteAt p = (s.put bytes).byteAt p := by
    intro p hp
    refine byteAt_of_blocks h ?_
    rw [Nat.succ_mul]
    omega
  unfold content
  rw [hlen, List.range_add, List.map_append]
  congr 1
  · refine List.map_congr_left fun p hp => ?_
    have hp := List.mem_range.mp hp
    rw [hbyte p (by omega), byteAt, block_put hv.lt, if_neg]
    · rfl
    · rintro ⟨hk, hj⟩
      have := Nat.div_add_mod' p streamBlockSize
      rw [hk] at this
      omega
  · apply List.ext_getElem (by simp)
    intro i _ hi
    rw [List.getElem_map, List.getElem_map, List.getElem_range, hbyte _ (by omega), hwr,
      Nat.add_assoc, byteAt_mul_add (by omega), block_put hv.lt, if_pos ⟨rfl, by omega⟩,
      Nat.add_sub_cancel_left, List.getD_eq_getElem?_getD, List.getElem?_eq_getElem hi, Option.getD_some]

/-- Another block behind the last one, if it can be had. -/
lemma appendNode_cases (s : Stream) :
    s.appendNode = s ∨
      s.appendNode.pnodeWr = s.pnodeWr + 1 ∧ s.appendNode.wrBlockPos = 0 ∧
        s.appendNode.wrTotalPos = s.wrTotalPos ∧
        (s.pnodeWr < s.list.length → s.pnodeWr + 1 < s.appendNode.list.length) ∧
        (∀ k < s.list.length, s.appendNode.block k = s.block k) ∧
        s.appendNode.eomResult = s.eomResult ∧ s.appendNode.lastEomParse = s.lastEomParse := by
  unfold appendNode
  split
  · exact .inr ⟨rfl, rfl, rfl, fun _ => by dsimp only; omega, fun _ _ => rfl, rfl, rfl⟩
  · split
    · exact .inl rfl
    · refine .inr ⟨rfl, rfl, rfl, fun _ => by simp; omega, fun k hk => ?_, rfl, rfl⟩
      unfold block
      dsimp only
      rw [List.getD_eq_getElem?_getD, List.getElem?_append_left hk, List.getD_eq_getElem?_getD]

/-- A chunk that goes into the last block. The block after it can be had, or the stream is
stuck. -/
lemma write_chunk (hv : s.Valid) (bytes : List UInt8)
    (hle : bytes.length ≤ streamBlockSize - s.wrBlockPos) :
    ((s.put bytes).forwardWritingPtr bytes.length).eomResult = s.eomResult ∧
      ((s.put bytes).forwardWritingPtr bytes.length).lastEomParse = s.lastEomParse ∧
      (((s.put bytes).forwardWritingPtr bytes.length).wrBlockPos = streamBlockSize ∨
        ((s.put bytes).forwardWritingPtr bytes.length).Valid ∧
          ((s.put bytes).forwardWritingPtr bytes.length).content = s.content ++ bytes) := by
  have hwr := wrTotalPos_eq hv
  have hlt := wrBlockPos_lt hv
  have hlist : (s.put bytes).list.length = s.list.length := by simp [put]
  unfold forwardWritingPtr
  dsimp only
  split
  · rename_i hfull
    rcases appendNode_cases { s.put bytes with
        wrBlockPos := (s.put bytes).wrBlockPos + bytes.length
        wrTotalPos := (s.put bytes).wrTotalPos + bytes.length } with
      heq | ⟨hnode, hpos, htotal, hlen, hblock, heom, hlast⟩
    · rw [heq]
      exact ⟨rfl, rfl, .inl hfull⟩
    · refine ⟨heom, hlast, .inr ⟨?_, ?_⟩⟩
      · refine valid_of_eq ?_ ?_ ?_
        · rw [hnode]
          exact hlen (hlist ▸ hv.lt)
        · rw [hpos]
          exact streamBlockSize_pos
        · have hp : s.wrBlockPos + bytes.length = streamBlockSize := hfull
          rw [htotal, hnode, hpos]
          change s.wrTotalPos + bytes.length = (s.pnodeWr + 1) * streamBlockSize + 0
          rw [hwr, Nat.succ_mul]
          omega
      · refine content_of_put hv hle htotal fun k hk => hblock k ?_
        exact lt_of_le_of_lt hk (hlist ▸ hv.lt)
  · rename_i hroom
    have hp : s.wrBlockPos + bytes.length ≠ streamBlockSize := hroom
    refine ⟨rfl, rfl, .inr ⟨valid_of_eq ?_ ?_ ?_, ?_⟩⟩
    · exact hlist ▸ hv.lt
    · change s.wrBlockPos + bytes.length < streamBlockSize
      omega
    · change s.wrTotalPos + bytes.length =
        s.pnodeWr * streamBlockSize + (s.wrBlockPos + bytes.length)
      rw [hwr, Nat.add_assoc]
    · exact content_of_put hv hle rfl fun k _ => rfl

lemma write_stuck (hfull : s.wrBlockPos = streamBlockSize) {bytes : List UInt8}
    (h : s.write bytes = some t) : t = s := by
  unfold write at h
  dsimp only at h
  split at h
  · exact (Option.some.inj h).symm
  · rw [dif_pos (by omega)] at h
    cases h

/-- **A write that leaves room appends its bytes.** -/
lemma write_spec {bytes : List UInt8} (hv : s.Valid) (h : s.write bytes = some t)
    (hroom : t.wrBlockPos < streamBlockSize) :
    t.Valid ∧ t.content = s.content ++ bytes ∧ t.eomResult = s.eomResult ∧
      t.lastEomParse = s.lastEomParse := by
  induction hn : bytes.length using Nat.strongRecOn generalizing s bytes with
  | ind n ih =>
    subst hn
    rw [write] at h
    dsimp only at h
    split at h
    · rename_i hnil
      cases h
      exact ⟨hv, by simp [hnil], rfl, rfl⟩
    · rename_i hne
      have hlt := wrBlockPos_lt hv
      have hlen := List.length_pos_iff.mpr hne
      rw [dif_neg (by omega)] at h
      have htake : (bytes.take (min bytes.length (streamBlockSize - s.wrBlockPos))).length =
          min bytes.length (streamBlockSize - s.wrBlockPos) := by
        rw [List.length_take]
        omega
      obtain ⟨heom, hlast, hchunk⟩ := write_chunk hv
        (bytes.take (min bytes.length (streamBlockSize - s.wrBlockPos))) (by omega)
      rw [htake] at heom hlast hchunk
      rcases hchunk with hfull | ⟨hvalid, hcontent⟩
      · rw [write_stuck hfull h] at hroom
        omega
      · obtain ⟨hv', hc', heom', hlast'⟩ := ih _ (by rw [List.length_drop]; omega) hvalid h rfl
        refine ⟨hv', ?_, heom'.trans heom, hlast'.trans hlast⟩
        rw [hc', hcontent, List.append_assoc, List.take_append_drop]

lemma write_of_le {bytes : List UInt8} (hne : bytes ≠ [])
    (h : bytes.length ≤ streamBlockSize - s.wrBlockPos) :
    s.write bytes = some ((s.put bytes).forwardWritingPtr bytes.length) := by
  have hlen := List.length_pos_iff.mpr hne
  rw [write, dif_neg hne]
  dsimp only
  rw [dif_neg (by omega), min_eq_left h, List.take_length, List.drop_length, write, dif_pos rfl]

/-- What the blocks hold that the stream has or can get. -/
def capacity (s : Stream) : ℕ := (s.list.length + s.allocator.length) * streamBlockSize

lemma capacity_appendNode (s : Stream) : s.appendNode.capacity = s.capacity := by
  unfold appendNode capacity
  split
  · rfl
  · split
    · rfl
    · rename_i b allocator heq
      dsimp only
      rw [heq, List.length_append, List.length_cons, List.length_nil, List.length_cons]
      congr 1
      omega

lemma capacity_forwardWritingPtr (s : Stream) (offset : ℕ) :
    (s.forwardWritingPtr offset).capacity = s.capacity := by
  unfold forwardWritingPtr
  dsimp only
  split
  · rw [capacity_appendNode]
    rfl
  · rfl

lemma capacity_put (s : Stream) (bytes : List UInt8) : (s.put bytes).capacity = s.capacity := by
  simp [capacity, put]

lemma capacity_clear (s : Stream) : s.clear.capacity = s.capacity := by
  unfold capacity clear
  rw [List.length_append, List.length_take, List.length_drop]
  congr 1
  omega

/-- A block more is there as long as the capacity is not used up. -/
lemma wrBlockPos_forwardWritingPtr (hv : s.Valid) (bytes : List UInt8)
    (hle : bytes.length ≤ streamBlockSize - s.wrBlockPos)
    (hroom : s.wrTotalPos + bytes.length < s.capacity) :
    ((s.put bytes).forwardWritingPtr bytes.length).wrBlockPos < streamBlockSize := by
  have hwr := wrTotalPos_eq hv
  have hlt := wrBlockPos_lt hv
  have hnode := hv.lt
  have hlist : (s.put bytes).list.length = s.list.length := by simp [put]
  unfold forwardWritingPtr appendNode
  dsimp only
  split
  · rename_i hfull
    have hfull : s.wrBlockPos + bytes.length = streamBlockSize := hfull
    split
    · exact streamBlockSize_pos
    · rename_i hlast
      have hlast : s.pnodeWr + 1 = s.list.length := by
        rw [← hlist]
        exact not_not.mp hlast
      split
      · rename_i hempty
        have hempty : s.allocator = [] := hempty
        unfold capacity at hroom
        rw [hempty, ← hlast, List.length_nil, Nat.add_zero, Nat.succ_mul] at hroom
        omega
      · exact streamBlockSize_pos
  · rename_i hroom
    have hroom : s.wrBlockPos + bytes.length ≠ streamBlockSize := hroom
    change s.wrBlockPos + bytes.length < streamBlockSize
    omega

lemma exists_write (hv : s.Valid) (bytes : List UInt8)
    (hroom : s.wrTotalPos + bytes.length < s.capacity) :
    ∃ t, s.write bytes = some t ∧ t.Valid ∧ t.content = s.content ++ bytes ∧
      t.capacity = s.capacity := by
  induction hn : bytes.length using Nat.strongRecOn generalizing s bytes with
  | ind n ih =>
    subst hn
    rw [write]
    dsimp only
    split
    · rename_i hnil
      exact ⟨s, rfl, hv, by simp [hnil], rfl⟩
    · rename_i hne
      have hlt := wrBlockPos_lt hv
      have hlen := List.length_pos_iff.mpr hne
      rw [dif_neg (by omega)]
      have htake : (bytes.take (min bytes.length (streamBlockSize - s.wrBlockPos))).length =
          min bytes.length (streamBlockSize - s.wrBlockPos) := by
        rw [List.length_take]
        omega
      obtain ⟨-, -, hchunk⟩ := write_chunk hv
        (bytes.take (min bytes.length (streamBlockSize - s.wrBlockPos))) (by omega)
      have hpos := wrBlockPos_forwardWritingPtr hv
        (bytes.take (min bytes.length (streamBlockSize - s.wrBlockPos))) (by omega)
        (by rw [htake]; omega)
      rw [htake] at hchunk hpos
      obtain ⟨hvalid, hcontent⟩ := hchunk.resolve_left hpos.ne
      have hcap : ((s.put (bytes.take (min bytes.length (streamBlockSize - s.wrBlockPos)))
          ).forwardWritingPtr (min bytes.length (streamBlockSize - s.wrBlockPos))).capacity =
          s.capacity := by
        rw [capacity_forwardWritingPtr, capacity_put]
      have htotal := congrArg List.length hcontent
      rw [length_content, List.length_append, length_content, htake] at htotal
      have hmore : ((s.put (bytes.take (min bytes.length (streamBlockSize - s.wrBlockPos)))
          ).forwardWritingPtr (min bytes.length (streamBlockSize - s.wrBlockPos))).wrTotalPos +
          (bytes.drop (min bytes.length (streamBlockSize - s.wrBlockPos))).length <
          ((s.put (bytes.take (min bytes.length (streamBlockSize - s.wrBlockPos)))
          ).forwardWritingPtr (min bytes.length (streamBlockSize - s.wrBlockPos))).capacity := by
        rw [List.length_drop, htotal, hcap]
        omega
      obtain ⟨t, ht, hv', hc', hcap'⟩ := ih _ (by rw [List.length_drop]; omega) hvalid _ hmore rfl
      refine ⟨t, ht, hv', ?_, hcap'.trans hcap⟩
      rw [hc', hcontent, List.append_assoc, List.take_append_drop]

/-! ### Reading -/

lemma length_read (b : Block) (pos length : ℕ) : (b.read pos length).length = length := by
  simp [Block.read]

lemma read_block (s : Stream) (k pos length : ℕ) (h : pos + length ≤ streamBlockSize)
    (hle : k * streamBlockSize + pos + length ≤ s.wrTotalPos) :
    (s.block k).read pos length =
      (s.content.drop (k * streamBlockSize + pos)).take length := by
  apply List.ext_getElem?
  intro i
  by_cases hi : i < length
  · rw [List.getElem?_take_of_lt hi, List.getElem?_drop, content_getElem? (by omega),
      Nat.add_assoc, byteAt_mul_add (by omega)]
    simp [Block.read, hi]
  · rw [List.getElem?_eq_none (by simp [Block.read]; omega),
      List.getElem?_eq_none (by rw [List.length_take]; omega)]

lemma getbufferForReading_block (h : s.pnodeWr ≠ s.pnodeRd) :
    s.getbufferForReading streamBlockSize =
      some ((s.block s.pnodeRd).read s.rdBlockPos (streamBlockSize - s.rdBlockPos),
        { s with
          rdBlockPos := 0
          pnodeRd := s.pnodeRd + 1
          rdTotalPos := s.rdTotalPos + (streamBlockSize - s.rdBlockPos) }) := by
  unfold getbufferForReading
  rw [if_pos h]
  dsimp only
  rw [if_pos (Nat.sub_le _ _)]

lemma getbufferForReading_last (heq : s.pnodeWr = s.pnodeRd) (hlt : s.rdBlockPos < s.wrBlockPos)
    (hpos : s.wrBlockPos < streamBlockSize) :
    s.getbufferForReading streamBlockSize =
      some ((s.block s.pnodeRd).read s.rdBlockPos (s.wrBlockPos - s.rdBlockPos),
        { s with rdBlockPos := s.wrBlockPos, rdTotalPos := s.wrTotalPos }) := by
  have hsize : streamBlockSize = 65536 := rfl
  have hleft : (s.wrBlockPos + (2 ^ 64 - s.rdBlockPos)) % 2 ^ 64 = s.wrBlockPos - s.rdBlockPos := by
    omega
  unfold getbufferForReading
  rw [if_neg (not_not.mpr heq), if_neg hlt.ne]
  dsimp only
  rw [hleft, if_pos (by omega)]

lemma getbufferForReading_end (heq : s.pnodeWr = s.pnodeRd) (hend : s.rdBlockPos = s.wrBlockPos)
    (size : ℕ) : s.getbufferForReading size = none := by
  unfold getbufferForReading
  rw [if_neg (not_not.mpr heq), if_pos hend]

lemma copy_of_some {fake fake' second second' : Stream} {bytes : List UInt8}
    (h : fake.getbufferForReading streamBlockSize = some (bytes, fake'))
    (hw : second.write bytes = some second') (fuel : ℕ) :
    copy (fuel + 1) fake second = copy fuel fake' second' := by
  rw [copy, h]
  dsimp only
  rw [hw]

lemma copy_of_none {fake second : Stream}
    (h : fake.getbufferForReading streamBlockSize = none) (fuel : ℕ) :
    copy (fuel + 1) fake second = some second := by
  rw [copy, h]

/-- **The copy appends what is left to read.** -/
lemma exists_copy {fake second : Stream} (hv : fake.Valid)
    (hpos : fake.rdBlockPos < streamBlockSize)
    (hle : fake.pnodeRd * streamBlockSize + fake.rdBlockPos ≤ fake.wrTotalPos)
    (hsecond : second.Valid)
    (hroom : second.wrTotalPos + fake.wrTotalPos < second.capacity +
      (fake.pnodeRd * streamBlockSize + fake.rdBlockPos)) :
    ∃ t, copy (fake.pnodeWr - fake.pnodeRd + 2) fake second = some t ∧ t.Valid ∧
      t.content =
        second.content ++ fake.content.drop (fake.pnodeRd * streamBlockSize + fake.rdBlockPos) ∧
      t.capacity = second.capacity := by
  have hrd : fake.pnodeRd ≤ fake.pnodeWr := by
    rw [hv.node]
    exact (Nat.le_div_iff_mul_le streamBlockSize_pos).mpr (by omega)
  induction hn : fake.pnodeWr - fake.pnodeRd generalizing fake second with
  | zero =>
    have heq : fake.pnodeWr = fake.pnodeRd := by omega
    have hwr := wrTotalPos_eq hv
    have hlt := wrBlockPos_lt hv
    rw [heq] at hwr
    rcases Nat.lt_or_ge fake.rdBlockPos fake.wrBlockPos with hmore | hend
    · have hread := read_block fake fake.pnodeRd fake.rdBlockPos
        (fake.wrBlockPos - fake.rdBlockPos) (by omega) (by omega)
      rw [List.take_of_length_le (by rw [List.length_drop, length_content]; omega)] at hread
      obtain ⟨t, ht, hvalid, hcontent, hcap⟩ := exists_write hsecond ((fake.block fake.pnodeRd).read
        fake.rdBlockPos (fake.wrBlockPos - fake.rdBlockPos)) (by rw [length_read]; omega)
      refine ⟨t, ?_, hvalid, by rw [hcontent, hread], hcap⟩
      rw [copy_of_some (getbufferForReading_last heq hmore hlt) ht]
      exact copy_of_none (getbufferForReading_end (s := { fake with
        rdBlockPos := fake.wrBlockPos
        rdTotalPos := fake.wrTotalPos }) heq rfl _) 0
    · have hend : fake.rdBlockPos = fake.wrBlockPos := by omega
      refine ⟨second, copy_of_none (getbufferForReading_end heq hend _) 1, hsecond, ?_, rfl⟩
      rw [hend, ← hwr, ← length_content fake, List.drop_length, List.append_nil]
  | succ n ih =>
    have hwr := wrTotalPos_eq hv
    have hnext : (fake.pnodeRd + 1) * streamBlockSize + 0 ≤ fake.wrTotalPos := by
      have := Nat.mul_le_mul_right streamBlockSize (show fake.pnodeRd + 1 ≤ fake.pnodeWr by omega)
      omega
    have hstep : fake.pnodeRd * streamBlockSize + fake.rdBlockPos +
        (streamBlockSize - fake.rdBlockPos) = (fake.pnodeRd + 1) * streamBlockSize := by
      rw [Nat.succ_mul]
      omega
    have hread := read_block fake fake.pnodeRd fake.rdBlockPos
      (streamBlockSize - fake.rdBlockPos) (by omega) (by omega)
    obtain ⟨t, ht, hvalid, hcontent, hcap⟩ := exists_write hsecond
      ((fake.block fake.pnodeRd).read fake.rdBlockPos (streamBlockSize - fake.rdBlockPos))
      (by rw [length_read]; omega)
    have htotal := congrArg List.length hcontent
    rw [length_content, List.length_append, length_content, length_read] at htotal
    have hv' : Valid { fake with
        rdBlockPos := 0
        pnodeRd := fake.pnodeRd + 1
        rdTotalPos := fake.rdTotalPos + (streamBlockSize - fake.rdBlockPos) } :=
      ⟨hv.node, hv.pos, hv.lt⟩
    have hroom' : t.wrTotalPos + fake.wrTotalPos <
        t.capacity + ((fake.pnodeRd + 1) * streamBlockSize + 0) := by
      omega
    have hrd' : fake.pnodeRd + 1 ≤ fake.pnodeWr := by omega
    have hn' : fake.pnodeWr - (fake.pnodeRd + 1) = n := by omega
    obtain ⟨u, hu, huvalid, hcopied, hucap⟩ :=
      ih hv' streamBlockSize_pos hnext hvalid hroom' hrd' hn'
    refine ⟨u, ?_, huvalid, ?_, hucap.trans hcap⟩
    · rw [copy_of_some (getbufferForReading_block (by omega)) ht]
      exact hu
    · have hcopied : u.content =
          t.content ++ fake.content.drop ((fake.pnodeRd + 1) * streamBlockSize + 0) := hcopied
      have hdrop : fake.content.drop ((fake.pnodeRd + 1) * streamBlockSize) =
          (fake.content.drop (fake.pnodeRd * streamBlockSize + fake.rdBlockPos)).drop
            (streamBlockSize - fake.rdBlockPos) := by
        rw [List.drop_drop, hstep]
      rw [hcopied, hcontent, hread, List.append_assoc, Nat.add_zero, hdrop,
        List.take_append_drop]

end Stream

end SteepSystem.Streams
