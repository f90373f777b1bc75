import SteepSystem.Rtfcp.Model

/-!
The search that writes the ring while it goes: whatever match it settles on, the ring holds as
many bytes more of the input, and the match repeats them from the bytes before or from one
another.
-/

namespace SteepSystem.Rtfcp.LongestMatch

open SteepSystem.Rtfcp.Model

variable {buf : ℕ → UInt8} {size : ℕ}

/-- The ring with the input from `inputIdx` on written at `pos`, without end. -/
def written (buf dict : ℕ → UInt8) (inputIdx pos : ℕ) (p : ℕ) : UInt8 :=
  if p < pos then dict p else buf (inputIdx + (p - pos))

/-- What holds of the variables at every point of the search that began with this ring. -/
structure Searching (buf : ℕ → UInt8) (size inputIdx : ℕ) (dict : ℕ → UInt8) (writeIdx : ℕ)
    (m : Match) : Prop where
  writeIdx_eq : m.writeIdx = writeIdx + m.bestMatchLength
  room : writeIdx % RTF_DICTLENGTH + m.bestMatchLength ≤ RTF_DICTLENGTH
  length_le : m.bestMatchLength ≤ 17
  fits : inputIdx + m.bestMatchLength ≤ max size inputIdx
  dict_eq : ∀ p < writeIdx % RTF_DICTLENGTH + m.bestMatchLength,
    m.pdict p = written buf dict inputIdx (writeIdx % RTF_DICTLENGTH) p
  offset_lt : 0 < m.bestMatchLength → m.matchOffset < writeIdx % RTF_DICTLENGTH
  bytes_eq : ∀ j < m.bestMatchLength, buf (inputIdx + j) =
    written buf dict inputIdx (writeIdx % RTF_DICTLENGTH) (m.matchOffset + j)

variable {inputIdx writeIdx : ℕ} {dict : ℕ → UInt8} {m : Match}

lemma searching_start : Searching buf size inputIdx dict writeIdx ⟨dict, writeIdx, 0, 0⟩ := by
  have hlt : writeIdx % RTF_DICTLENGTH < RTF_DICTLENGTH := Nat.mod_lt _ (by decide)
  refine ⟨rfl, hlt.le, by simp, by simp, fun p hp => ?_, by simp, by simp⟩
  rw [written, if_pos (by simpa using hp)]

/-- One byte more than the best match so far, at index `i`. -/
lemma Searching.longer (h : Searching buf size inputIdx dict writeIdx m) {i : ℕ}
    (hbytes : ∀ j < m.bestMatchLength, buf (inputIdx + j) =
      written buf dict inputIdx (writeIdx % RTF_DICTLENGTH) (i + j))
    (hbyte : buf (inputIdx + m.bestMatchLength) = m.pdict (i + m.bestMatchLength))
    (hi : i + m.bestMatchLength < m.writeIdx % RTF_DICTLENGTH)
    (hsize : inputIdx + m.bestMatchLength < size) (h17 : m.bestMatchLength < 17) :
    Searching buf size inputIdx dict writeIdx
      ⟨setEntry m.pdict (m.writeIdx % RTF_DICTLENGTH) (buf (inputIdx + m.bestMatchLength)),
        m.writeIdx + 1, i, m.bestMatchLength + 1⟩ := by
  have hw := h.writeIdx_eq
  have hroom := h.room
  have hlt : writeIdx % RTF_DICTLENGTH < RTF_DICTLENGTH := Nat.mod_lt _ (by decide)
  -- the ring is not full, for an index that is below its end was found
  have hmod : m.writeIdx % RTF_DICTLENGTH =
      writeIdx % RTF_DICTLENGTH + m.bestMatchLength := by
    rw [hw, Nat.add_mod] at hi ⊢
    rw [RTF_DICTLENGTH] at *
    omega
  have hfull : writeIdx % RTF_DICTLENGTH + m.bestMatchLength < RTF_DICTLENGTH := by
    rw [← hmod]
    exact Nat.mod_lt _ (by decide)
  rw [hmod] at hi ⊢
  refine ⟨by simp only; omega, hfull, h17, by simp only; omega, fun p hp => ?_, fun _ => by
    simp only; omega, fun j hj => ?_⟩
  · simp only at hp ⊢
    rw [setEntry]
    split_ifs with hpe
    · rw [written, if_neg (by omega), hpe, Nat.add_sub_cancel_left]
    · exact h.dict_eq p (by omega)
  · simp only at hj ⊢
    rcases Nat.lt_succ_iff_lt_or_eq.1 hj with hj | rfl
    · exact hbytes j hj
    · rw [hbyte, h.dict_eq _ hi]

/-- The inner loop keeps this, with the bytes compared so far a match no longer than the best. -/
lemma matchLoop_searching {i n matchLength1 : ℕ}
    (h : Searching buf size inputIdx dict writeIdx m) (hle : matchLength1 ≤ m.bestMatchLength)
    (hbytes : ∀ j < matchLength1, buf (inputIdx + j) =
      written buf dict inputIdx (writeIdx % RTF_DICTLENGTH) (i + j)) :
    Searching buf size inputIdx dict writeIdx (matchLoop buf size inputIdx i n matchLength1 m) := by
  induction n generalizing matchLength1 m with
  | zero => exact h
  | succ n ih =>
    rw [matchLoop]
    dsimp only
    split_ifs with hc hbetter
    · -- longer than the best match: that is as long as what is compared
      obtain ⟨⟨-, hbyte⟩, hi, hsize, h17⟩ := hc
      obtain rfl : matchLength1 = m.bestMatchLength := by omega
      have h' := h.longer hbytes hbyte hi hsize h17
      exact ih h' le_rfl h'.bytes_eq
    · obtain ⟨⟨-, hbyte⟩, hi, -, -⟩ := hc
      refine ih h (by omega) fun j hj => ?_
      rcases Nat.lt_succ_iff_lt_or_eq.1 hj with hj | rfl
      · exact hbytes j hj
      · have hmod : m.writeIdx % RTF_DICTLENGTH ≤
            writeIdx % RTF_DICTLENGTH + m.bestMatchLength := by
          rw [h.writeIdx_eq, RTF_DICTLENGTH]
          omega
        rw [hbyte, h.dict_eq _ (by omega)]
    · exact h

/-- **The search.** -/
lemma rtfcpLongestMatch_searching (buf : ℕ → UInt8) (size inputIdx : ℕ) (dict : ℕ → UInt8)
    (writeIdx : ℕ) :
    Searching buf size inputIdx dict writeIdx
      (rtfcpLongestMatch buf size inputIdx dict writeIdx) := by
  rw [rtfcpLongestMatch]
  generalize List.range (min writeIdx RTF_DICTLENGTH) = indices
  suffices h : ∀ m, Searching buf size inputIdx dict writeIdx m →
      Searching buf size inputIdx dict writeIdx
        (indices.foldl (fun m i => matchLoop buf size inputIdx i 17 0 m) m) from
    h _ searching_start
  induction indices with
  | nil => exact fun m h => h
  | cons i is ih => exact fun m h => ih _ (matchLoop_searching h (Nat.zero_le _) (by simp))

end SteepSystem.Rtfcp.LongestMatch
