import SteepSystem.Lzxpress.Model

/-!
What `lzxpress_decompress` reads of its input and writes of its output, turn by turn. The copies
check both ends of the output; the other reads and the write of a literal check nothing. The
indices are those of 32 bits as long as nothing is read beyond the input.
-/

namespace SteepSystem.Lzxpress.Model

variable (input : ℕ → UInt8) (inputSize maxOutputSize : ℕ)

/-- The turn takes the next byte as it is. -/
def Decoder.Literal (d : Decoder) : Prop :=
  ((d.fetch input).indicator >>> ((d.fetch input).indicatorBit - 1)) &&& 1 = 0

instance (d : Decoder) : Decidable (d.Literal input) := inferInstanceAs (Decidable (_ = _))

/-- The indices at which the bytes of a length are read. -/
def lengthReads (inputIndex nibbleIndex length : ℕ) : List ℕ :=
  if length ≠ 7 then []
  else
    let (nibble, length, inputIndex) :=
      if nibbleIndex = 0 then ([inputIndex], (input inputIndex).toNat % 16, inputIndex + 1)
      else ([nibbleIndex], (input nibbleIndex).toNat / 16, inputIndex)
    if length ≠ 15 then nibble
    else if (input inputIndex).toNat ≠ 255 then nibble ++ [inputIndex]
    else nibble ++ [inputIndex, inputIndex + 1, inputIndex + 2]

/-- Where the output is read and written by the loop that copies a match. -/
def copies (offset : ℕ) : ℕ → List UInt8 → List (ℤ × ℕ)
  | 0, _ => []
  | length + 1, output =>
    if output.length ≥ maxOutputSize ∨ offset + 1 > output.length then []
    else
      ((output.length : ℤ) - offset - 1, output.length) ::
        copies offset length (output ++ [output.getD (output.length - offset - 1) 0])

/-- The indices at which a turn reads the input. -/
def Decoder.reads (d : Decoder) : List ℕ :=
  let word := if d.indicatorBit = 0 then
    [d.inputIndex, d.inputIndex + 1, d.inputIndex + 2, d.inputIndex + 3] else []
  let i := (d.fetch input).inputIndex
  if d.Literal input then word ++ [i]
  else word ++ [i, i + 1] ++ lengthReads input (i + 2) d.nibbleIndex (sval input i % 8)

/-- The indices at which a turn writes the output without a check. -/
def Decoder.writes (d : Decoder) : List ℕ := if d.Literal input then [d.output.length] else []

/-- The copies that a turn makes within the output. -/
def Decoder.copies (d : Decoder) : List (ℤ × ℕ) :=
  let i := (d.fetch input).inputIndex
  if d.Literal input then []
  else
    Model.copies maxOutputSize (sval input i / 8)
      (readLength input (i + 2) d.nibbleIndex (sval input i % 8)).1 d.output

/-- Nothing is read or written where it must not be. -/
structure Decoder.Safe (d : Decoder) : Prop where
  reads : ∀ i ∈ d.reads input, i < inputSize
  writes : ∀ j ∈ d.writes input, j < maxOutputSize
  copies : ∀ c ∈ d.copies input maxOutputSize, 0 ≤ c.1 ∧ c.1 < c.2 ∧ c.2 < maxOutputSize

/-- How many bytes the length of a match takes behind its metadata word. -/
def lengthBytes (inputIndex nibbleIndex length : ℕ) : ℕ :=
  let more (length inputIndex : ℕ) : ℕ :=
    if length ≠ 15 then 0 else if (input inputIndex).toNat ≠ 255 then 1 else 3
  if length ≠ 7 then 0
  else if nibbleIndex = 0 then 1 + more ((input inputIndex).toNat % 16) (inputIndex + 1)
  else more ((input nibbleIndex).toNat / 16) inputIndex

/-- How many bytes the next token takes, with the word of indicator bits before it. -/
def Decoder.taken (d : Decoder) : ℕ :=
  let i := (d.fetch input).inputIndex
  (if d.indicatorBit = 0 then 4 else 0) +
    if d.Literal input then 1 else 2 + lengthBytes input (i + 2) d.nibbleIndex (sval input i % 8)

/-- The next token lies within the input, and there is room for it if it is a literal. -/
def Decoder.Fits (d : Decoder) : Prop :=
  d.inputIndex + d.taken input ≤ inputSize ∧ (d.Literal input → d.output.length < maxOutputSize)

/-- The condition of the loop. -/
def Decoder.GoesOn (d : Decoder) : Prop :=
  d.output.length < maxOutputSize ∧ d.inputIndex < inputSize

/-- The states in which a turn is begun. -/
inductive Decoder.Reached : Decoder → Prop
  | start : Reached .init
  | turn {d : Decoder} : Reached d → (d.step input maxOutputSize).GoesOn inputSize maxOutputSize →
      Reached (d.step input maxOutputSize)

variable {input inputSize maxOutputSize} {d : Decoder}

lemma copies_safe {offset length : ℕ} {output : List UInt8} {c : ℤ × ℕ}
    (h : c ∈ copies maxOutputSize offset length output) :
    0 ≤ c.1 ∧ c.1 < c.2 ∧ c.2 < maxOutputSize := by
  induction length generalizing output with
  | zero => cases h
  | succ length ih =>
    rw [copies] at h
    split_ifs at h with hstop
    · cases h
    · rcases List.mem_cons.mp h with rfl | h
      · dsimp only
        omega
      · exact ih h

/-- The bytes of a length stand one after the other, but for the shared nibble. -/
lemma mem_lengthReads {i inputIndex nibbleIndex length : ℕ} :
    i ∈ lengthReads input inputIndex nibbleIndex length →
      i = nibbleIndex ∧ nibbleIndex ≠ 0 ∨
      inputIndex ≤ i ∧ i < inputIndex + lengthBytes input inputIndex nibbleIndex length := by
  unfold lengthReads lengthBytes
  dsimp only
  intro h
  split_ifs at h ⊢ <;> simp_all <;> omega

lemma lengthReads_all {i inputIndex nibbleIndex length : ℕ} (hle : inputIndex ≤ i)
    (hlt : i < inputIndex + lengthBytes input inputIndex nibbleIndex length) :
    i ∈ lengthReads input inputIndex nibbleIndex length := by
  unfold lengthReads
  unfold lengthBytes at hlt
  dsimp only at hlt ⊢
  split_ifs at hlt ⊢ <;> simp_all <;> omega

lemma fetch_inputIndex :
    (d.fetch input).inputIndex = d.inputIndex + if d.indicatorBit = 0 then 4 else 0 := by
  unfold Decoder.fetch
  split_ifs <;> rfl

/-- A turn reads the token, and at most a nibble read before. -/
lemma mem_reads {i : ℕ} (h : i ∈ d.reads input) :
    i = d.nibbleIndex ∧ d.nibbleIndex ≠ 0 ∨
      d.inputIndex ≤ i ∧ i < d.inputIndex + d.taken input := by
  unfold Decoder.reads at h
  unfold Decoder.taken
  dsimp only at h ⊢
  rw [fetch_inputIndex] at h ⊢
  have hword : i ∈ (if d.indicatorBit = 0 then
      [d.inputIndex, d.inputIndex + 1, d.inputIndex + 2, d.inputIndex + 3] else []) →
      d.inputIndex ≤ i ∧ i < d.inputIndex + if d.indicatorBit = 0 then 4 else 0 := by
    intro h
    split_ifs at h ⊢
    · simp only [List.mem_cons, List.not_mem_nil, or_false] at h
      omega
    · cases h
  by_cases hlit : d.Literal input
  · rw [if_pos hlit] at h ⊢
    rcases List.mem_append.mp h with h | h
    · have := hword h
      omega
    · obtain rfl := List.mem_singleton.mp h
      omega
  · rw [if_neg hlit] at h ⊢
    rcases List.mem_append.mp h with h | h
    · rcases List.mem_append.mp h with h | h
      · have := hword h
        omega
      · simp only [List.mem_cons, List.not_mem_nil, or_false] at h
        omega
    · rcases mem_lengthReads h with h | ⟨hle, hlt⟩
      · exact .inl h
      · omega

/-- All bytes of the token are read. -/
lemma last_mem_reads : d.inputIndex + d.taken input - 1 ∈ d.reads input := by
  unfold Decoder.reads Decoder.taken
  dsimp only
  rw [fetch_inputIndex]
  set i := d.inputIndex + if d.indicatorBit = 0 then 4 else 0 with hi
  by_cases hlit : d.Literal input
  · rw [if_pos hlit, if_pos hlit]
    apply List.mem_append_right
    rw [List.mem_singleton]
    omega
  · rw [if_neg hlit, if_neg hlit]
    rcases Nat.eq_zero_or_pos (lengthBytes input (i + 2) d.nibbleIndex (sval input i % 8)) with h | h
    · apply List.mem_append_left
      apply List.mem_append_right
      rw [h]
      simp only [List.mem_cons, List.not_mem_nil, or_false]
      omega
    · apply List.mem_append_right
      apply lengthReads_all <;> omega

/-- With its nibble read before, a turn is safe exactly if its token fits. -/
lemma Decoder.safe_iff (h : d.nibbleIndex ≠ 0 → d.nibbleIndex < inputSize) :
    d.Safe input inputSize maxOutputSize ↔ d.Fits input inputSize maxOutputSize := by
  have hpos : 0 < d.taken input := by
    unfold taken
    dsimp only
    split_ifs <;> omega
  constructor
  · intro hsafe
    refine ⟨?_, fun hlit => hsafe.writes _ ?_⟩
    · have := hsafe.reads _ last_mem_reads
      omega
    · rw [writes, if_pos hlit]
      exact List.mem_singleton_self _
  · rintro ⟨hroom, hlit⟩
    refine ⟨fun i hi => ?_, fun j hj => ?_, fun c hc => ?_⟩
    · rcases mem_reads hi with ⟨rfl, hne⟩ | ⟨-, hlt⟩
      · exact h hne
      · omega
    · unfold writes at hj
      split_ifs at hj with hl
      · obtain rfl := List.mem_singleton.mp hj
        exact hlit hl
      · cases hj
    · unfold copies at hc
      dsimp only at hc
      split_ifs at hc
      · cases hc
      · exact copies_safe hc

lemma readLength_nibbleIndex (inputIndex nibbleIndex length : ℕ) :
    (readLength input inputIndex nibbleIndex length).2.2 = nibbleIndex ∨
      (readLength input inputIndex nibbleIndex length).2.2 = 0 ∨
      (readLength input inputIndex nibbleIndex length).2.2 <
        (readLength input inputIndex nibbleIndex length).2.1 := by
  unfold readLength
  dsimp only
  split_ifs <;> (simp; try omega)

/-- The shared nibble has been read. -/
lemma Decoder.nibble_step (h : d.nibbleIndex ≠ 0 → d.nibbleIndex < d.inputIndex) :
    (d.step input maxOutputSize).nibbleIndex ≠ 0 →
      (d.step input maxOutputSize).nibbleIndex < (d.step input maxOutputSize).inputIndex := by
  have hnibble : (d.fetch input).nibbleIndex = d.nibbleIndex := by
    unfold fetch
    split_ifs <;> rfl
  have hle : d.inputIndex ≤ (d.fetch input).inputIndex := by
    rw [fetch_inputIndex]
    omega
  unfold step
  dsimp only
  split_ifs
  · dsimp only
    rw [hnibble]
    intro hne
    have := h hne
    omega
  · dsimp only
    rw [hnibble]
    intro hne
    have hread := le_readLength input ((d.fetch input).inputIndex + 2) d.nibbleIndex
      (sval input (d.fetch input).inputIndex % 8)
    rcases @readLength_nibbleIndex input ((d.fetch input).inputIndex + 2) d.nibbleIndex
      (sval input (d.fetch input).inputIndex % 8) with heq | heq | hlt
    · rw [heq] at hne ⊢
      exact (h hne).trans_le (hle.trans ((Nat.le_add_right _ 2).trans hread))
    · exact absurd heq hne
    · exact hlt

/-- In every state in which a turn is begun the nibble to come has been read from the input. -/
lemma Decoder.Reached.nibble (h : d.Reached input inputSize maxOutputSize) :
    d.nibbleIndex ≠ 0 → d.nibbleIndex < inputSize := by
  have hboth : (d.nibbleIndex ≠ 0 → d.nibbleIndex < d.inputIndex) ∧
      (d.nibbleIndex ≠ 0 → d.nibbleIndex < inputSize) := by
    induction h with
    | start => exact ⟨fun h => absurd rfl h, fun h => absurd rfl h⟩
    | turn hd hgo ih =>
      have hstep := @nibble_step input maxOutputSize _ ih.1
      exact ⟨hstep, fun hne => (hstep hne).trans hgo.2⟩
  exact hboth.2

end SteepSystem.Lzxpress.Model
