import SteepSystem.Idsets.Model

/-!
What the scans over one range list do to a list in ascending order: which values it covers
afterwards, and when it is in ascending order still.
-/

namespace SteepSystem.Idsets.Scan

open SteepSystem.Lib.Ranges SteepSystem.Idsets.Model

/-- The values of a list are counter values. -/
def InBounds (l : List RangeNode) : Prop := ∀ v, Covers l v → 1 ≤ v ∧ v < 2 ^ 48

/-- The order and the bounds that the mutators rely on. -/
structure Ordered (l : List RangeNode) : Prop where
  asc : Ascending l
  bounds : InBounds l

lemma dec64_eq {v : ℕ} (h0 : 1 ≤ v) (h : v < 2 ^ 64) : dec64 v = v - 1 := by
  rw [dec64]; omega

lemma inc64_eq {v : ℕ} (h : v + 1 < 2 ^ 64) : inc64 v = v + 1 := by
  rw [inc64]; omega

lemma ordered_nil : Ordered [] := ⟨by simp, by simp [InBounds]⟩

lemma Ordered.tail {n : RangeNode} {l : List RangeNode} (h : Ordered (n :: l)) : Ordered l :=
  ⟨((ascending_cons _ _).1 h.asc).2.2, fun v hv => h.bounds v (by simp [hv])⟩

lemma Ordered.head {n : RangeNode} {l : List RangeNode} (h : Ordered (n :: l)) :
    1 ≤ n.low ∧ n.low ≤ n.high ∧ n.high < 2 ^ 48 := by
  have hle := ((ascending_cons _ _).1 h.asc).1
  exact ⟨(h.bounds n.low (by simp [Range.Has, hle])).1, hle,
    (h.bounds n.high (by simp [Range.Has, hle])).2⟩

/-- In a list in order, to lie below every range is to lie below every value. -/
lemma lt_low_iff {l : List RangeNode} (h : Ascending l) (x : ℕ) :
    (∀ b ∈ l, x < b.low) ↔ ∀ v, Covers l v → x < v := by
  constructor
  · rintro hb v ⟨b, hbl, hlo, -⟩
    exact (hb b hbl).trans_le hlo
  · intro hv b hb
    exact hv b.low ⟨b, hb, le_rfl, h.le hb⟩

lemma Ordered.lt_covers {n : RangeNode} {l : List RangeNode} (h : Ordered (n :: l)) {v : ℕ}
    (hv : Covers l v) : n.high < v :=
  (lt_low_iff h.tail.asc _).1 ((ascending_cons _ _).1 h.asc).2.1 v hv

lemma appendScan_step (value : ℕ) (before : List RangeNode) (n : RangeNode)
    (rest : List RangeNode) :
    appendScan value before (n :: rest) =
      if n.low ≤ value ∧ value ≤ n.high then before.reverse ++ n :: rest
      else if value = dec64 n.low then
        match before with
        | [] => ⟨value, n.high⟩ :: rest
        | p :: ps =>
          if value ≤ p.high then ps.reverse ++ ⟨p.low, n.high⟩ :: rest
          else before.reverse ++ ⟨value, n.high⟩ :: rest
      else if value = inc64 n.high then
        match rest with
        | [] => before.reverse ++ [⟨n.low, value⟩]
        | q :: qs =>
          if q.low ≤ value then before.reverse ++ ⟨n.low, q.high⟩ :: qs
          else before.reverse ++ ⟨n.low, value⟩ :: q :: qs
      else if value < n.low then before.reverse ++ ⟨value, value⟩ :: n :: rest
      else appendScan value (n :: before) rest := rfl

/-- The range merged backward never ends at or after the value: the scan has passed it. -/
lemma appendScan_before {value : ℕ} {before l : List RangeNode}
    (h : ∀ p ∈ before.head?, p.high < value) :
    appendScan value before l = before.reverse ++ appendScan value [] l := by
  induction l generalizing before with
  | nil => simp [appendScan]
  | cons n rest ih =>
    rw [appendScan_step, appendScan_step]
    split_ifs with h1 h2 h3 h4
    · simp
    · rcases before with _ | ⟨p, ps⟩
      · simp
      · simp only [List.head?_cons, Option.mem_def, Option.some.injEq, forall_eq'] at h
        simp [Nat.not_le.2 h]
    · rcases rest with _ | ⟨q, qs⟩
      · simp
      · by_cases hq : q.low ≤ value <;> simp [hq]
    · simp
    · have hn : n.high < value := by omega
      rw [ih (by simpa using hn), ih (show ∀ p ∈ [n].head?, p.high < value by simpa using hn)]
      simp

lemma appendScan_nil (value : ℕ) : appendScan value [] [] = [⟨value, value⟩] := rfl

lemma appendScan_cons (value : ℕ) (n : RangeNode) (rest : List RangeNode) :
    appendScan value [] (n :: rest) =
      if n.low ≤ value ∧ value ≤ n.high then n :: rest
      else if value = dec64 n.low then ⟨value, n.high⟩ :: rest
      else if value = inc64 n.high then
        match rest with
        | [] => [⟨n.low, value⟩]
        | q :: qs =>
          if q.low ≤ value then ⟨n.low, q.high⟩ :: qs else ⟨n.low, value⟩ :: q :: qs
      else if value < n.low then ⟨value, value⟩ :: n :: rest
      else n :: appendScan value [] rest := by
  rw [appendScan_step]
  split_ifs with h1 h2 h3 h4
  · rfl
  · rfl
  · rfl
  · rfl
  · rw [appendScan_before (by simp; omega)]
    rfl

/-- **Append.** The scan adds its value to a list in order and keeps the order. -/
theorem appendScan_spec {value : ℕ} {l : List RangeNode} (h : Ordered l) (h1 : 1 ≤ value)
    (h2 : value < 2 ^ 48) :
    Ascending (appendScan value [] l) ∧
      ∀ v, Covers (appendScan value [] l) v ↔ v = value ∨ Covers l v := by
  induction l with
  | nil =>
    refine ⟨by simp [appendScan_nil], fun v => ?_⟩
    simp only [appendScan_nil, covers_cons, covers_nil, or_false, Range.Has]
    omega
  | cons n rest ih =>
    obtain ⟨hlo, hle, hhi⟩ := h.head
    obtain ⟨-, hnext, hrest⟩ := (ascending_cons _ _).1 h.asc
    rw [appendScan_cons, dec64_eq hlo (by omega), inc64_eq (by omega)]
    split_ifs with c1 c2 c3 c4
    · -- the value is there already
      refine ⟨h.asc, fun v => ⟨Or.inr, ?_⟩⟩
      rintro (rfl | hv)
      · exact (covers_cons ..).2 (.inl c1)
      · exact hv
    · -- it extends the range downward
      refine ⟨(ascending_cons _ _).2 ⟨by simp; omega, hnext, hrest⟩, fun v => ?_⟩
      simp only [covers_cons, Range.Has, ← or_assoc]
      refine or_congr ?_ Iff.rfl
      omega
    · -- it extends the range upward, as far as the next one when that begins there
      rcases rest with _ | ⟨q, qs⟩
      · refine ⟨by simp; omega, fun v => ?_⟩
        simp only [covers_cons, Range.Has, covers_nil, or_false]
        omega
      · have hq := hnext q (by simp)
        obtain ⟨-, hqle, -⟩ := h.tail.head
        obtain ⟨-, hqnext, hqs⟩ := (ascending_cons _ _).1 hrest
        dsimp only
        split_ifs with c4
        · refine ⟨(ascending_cons _ _).2 ⟨by simp; omega, hqnext, hqs⟩, fun v => ?_⟩
          simp only [covers_cons, Range.Has, ← or_assoc]
          refine or_congr ?_ Iff.rfl
          omega
        · refine ⟨(ascending_cons _ _).2 ⟨by simp; omega, ?_, hrest⟩, fun v => ?_⟩
          · have := (lt_low_iff hqs q.high).1 hqnext
            refine (lt_low_iff hrest value).2 fun v hv => ?_
            rcases (covers_cons ..).1 hv with hv | hv
            · exact lt_of_lt_of_le (by omega) hv.1
            · exact lt_trans (by omega) (this v hv)
          · simp only [covers_cons, Range.Has, ← or_assoc]
            refine or_congr (or_congr ?_ Iff.rfl) Iff.rfl
            omega
    · -- it stands alone before the range
      refine ⟨(ascending_cons _ _).2 ⟨le_rfl, ?_, h.asc⟩, fun v => ?_⟩
      · intro b hb
        rcases List.mem_cons.1 hb with rfl | hb
        · exact c4
        · exact lt_trans (by simp; omega) (hnext b hb)
      · simp only [covers_cons, Range.Has]
        refine or_congr ?_ Iff.rfl
        omega
    · -- it lies beyond the range
      obtain ⟨ihA, ihC⟩ := ih h.tail
      refine ⟨(ascending_cons _ _).2 ⟨hle, (lt_low_iff ihA _).2 ?_, ihA⟩, fun v => ?_⟩
      · intro v hv
        rcases (ihC v).1 hv with rfl | hv
        · omega
        · exact h.lt_covers hv
      · simp only [covers_cons, ihC]
        exact or_left_comm

/-- Beyond its range the absorbing loop finds at most one range it has to deal with. -/
def absorbs (high : ℕ) : List RangeNode → Bool
  | [] => true
  | [r] => high ≤ r.low || r.high ≤ high
  | r :: m :: _ => high ≤ r.low || (r.high ≤ high && high < m.low)

/-- The loop of `idset_append_range` meets the place where its range belongs. -/
def hasSlot (low high : ℕ) : List RangeNode → Bool
  | [] => false
  | n :: rest =>
    if low = n.high then absorbs high rest
    else n.high < low && (rest.head?.all (fun m => high ≤ m.low) || hasSlot low high rest)

lemma absorbScan_far {high : ℕ} {node : RangeNode} {passed l : List RangeNode}
    (h : ∀ b ∈ l, high < b.low) :
    absorbScan high node passed l = node :: (passed.reverse ++ l) := by
  rcases l with _ | ⟨n, rest⟩
  · simp [absorbScan]
  · have hn := h n (by simp)
    rw [absorbScan.eq_def]
    simp [hn.ne, hn]

/-- The absorbing loop unites its range with a list in order that begins above it. -/
lemma absorbScan_spec {low high : ℕ} {l : List RangeNode} (h : Ordered l) (hle : low ≤ high)
    (hlow : ∀ b ∈ l, low ≤ b.low) (ha : absorbs high l = true) :
    Ascending (absorbScan high ⟨low, high⟩ [] l) ∧
      ∀ v, Covers (absorbScan high ⟨low, high⟩ [] l) v ↔
        (low ≤ v ∧ v ≤ high) ∨ Covers l v := by
  rcases l with _ | ⟨r, rest⟩
  · refine ⟨by simpa [absorbScan] using hle, fun v => ?_⟩
    simp [absorbScan, Range.Has]
  obtain ⟨-, hrle, -⟩ := h.head
  obtain ⟨-, hnext, hrest⟩ := (ascending_cons _ _).1 h.asc
  have hr := hlow r (by simp)
  rcases Nat.lt_trichotomy high r.low with hlt | heq | hgt
  · -- the list begins beyond the range
    have hall : ∀ b ∈ r :: rest, high < b.low := by
      rintro b (_ | ⟨_, hb⟩)
      · exact hlt
      · exact lt_trans (lt_of_lt_of_le hlt hrle) (hnext b hb)
    rw [absorbScan_far hall]
    exact ⟨(ascending_cons _ _).2 ⟨hle, hall, h.asc⟩, fun v => covers_cons ..⟩
  · -- it begins where the range ends
    rw [absorbScan.eq_def]
    simp only [heq, if_true, List.reverse_nil, List.nil_append]
    refine ⟨(ascending_cons _ _).2 ⟨by simp; omega, hnext, hrest⟩, fun v => ?_⟩
    simp only [covers_cons, Range.Has, ← or_assoc]
    refine or_congr ?_ Iff.rfl
    omega
  · -- its first range lies within the one appended
    have hin : r.high ≤ high ∧ ∀ b ∈ rest, high < b.low := by
      rcases rest with _ | ⟨m, ms⟩
      · simp only [absorbs, Bool.or_eq_true, decide_eq_true_eq] at ha
        exact ⟨by omega, by simp⟩
      · simp only [absorbs, Bool.or_eq_true, Bool.and_eq_true, decide_eq_true_eq] at ha
        have hm : r.high ≤ high ∧ high < m.low := by omega
        have hmle := ((ascending_cons _ _).1 hrest).1
        refine ⟨hm.1, ?_⟩
        rintro b (_ | ⟨_, hb⟩)
        · exact hm.2
        · exact lt_trans (lt_of_lt_of_le hm.2 hmle) (((ascending_cons _ _).1 hrest).2.1 b hb)
    have hscan : absorbScan high ⟨low, high⟩ [] (r :: rest) = ⟨low, high⟩ :: rest := by
      rw [absorbScan.eq_def]
      simp only [if_neg (show high ≠ r.low by omega), if_neg (show ¬ high < r.low by omega)]
      rcases rest with _ | ⟨m, ms⟩
      · rfl
      · dsimp only
        rw [absorbScan_far fun b hb => hin.2 b (List.mem_cons_of_mem _ hb)]
        rfl
    rw [hscan]
    refine ⟨(ascending_cons _ _).2 ⟨hle, hin.2, hrest⟩, fun v => ?_⟩
    simp only [covers_cons, Range.Has, ← or_assoc]
    refine or_congr ?_ Iff.rfl
    omega

lemma appendRangeScan_before (low high : ℕ) (before l : List RangeNode) :
    appendRangeScan low high before l = before.reverse ++ appendRangeScan low high [] l := by
  induction l generalizing before with
  | nil => simp [appendRangeScan]
  | cons n rest ih =>
    rw [appendRangeScan, appendRangeScan]
    split_ifs
    · simp
    · simp
    · rw [ih, ih [n]]
      simp

lemma appendRangeScan_cons (low high : ℕ) (n : RangeNode) (rest : List RangeNode) :
    appendRangeScan low high [] (n :: rest) =
      if low = n.high then absorbScan high ⟨n.low, high⟩ [] rest
      else if n.high < low ∧ ∀ m ∈ rest.head?, high ≤ m.low then
        n :: absorbScan high ⟨low, high⟩ [] rest
      else n :: appendRangeScan low high [] rest := by
  rw [appendRangeScan]
  split_ifs
  · rfl
  · rfl
  · rw [appendRangeScan_before]
    rfl

/-- The whole condition on a list: it is empty, or the loop meets the right place. -/
def rangeFits (low high : ℕ) (l : List RangeNode) : Bool := l.isEmpty || hasSlot low high l

lemma appendRangeScan_slot {low high : ℕ} {l : List RangeNode} (h : Ordered l)
    (hle : low ≤ high) (hs : hasSlot low high l = true) :
    Ascending (appendRangeScan low high [] l) ∧
      ∀ v, Covers (appendRangeScan low high [] l) v ↔ (low ≤ v ∧ v ≤ high) ∨ Covers l v := by
  induction l with
  | nil => simp [hasSlot] at hs
  | cons n rest ih =>
    obtain ⟨-, hnle, -⟩ := h.head
    obtain ⟨-, hnext, hrest⟩ := (ascending_cons _ _).1 h.asc
    rw [hasSlot] at hs
    rw [appendRangeScan_cons]
    by_cases c1 : low = n.high
    · -- the range goes on where this one ends
      rw [if_pos c1] at hs
      rw [if_pos c1]
      obtain ⟨hA, hC⟩ := absorbScan_spec h.tail (show n.low ≤ high by omega)
        (fun b hb => (lt_of_le_of_lt hnle (hnext b hb)).le) hs
      refine ⟨hA, fun v => ?_⟩
      simp only [hC, covers_cons, Range.Has, ← or_assoc]
      refine or_congr ?_ Iff.rfl
      omega
    · rw [if_neg c1] at hs
      simp only [Bool.and_eq_true, decide_eq_true_eq, Bool.or_eq_true] at hs
      obtain ⟨hlow, hs⟩ := hs
      rw [if_neg c1]
      by_cases c2 : ∀ m ∈ rest.head?, high ≤ m.low
      · -- it stands between this one and the next
        rw [if_pos ⟨hlow, c2⟩]
        have ha : absorbs high rest = true := by
          rcases rest with _ | ⟨r, _ | ⟨m, ms⟩⟩
          · rfl
          · simpa [absorbs] using .inl (c2 r (by simp))
          · simpa [absorbs] using .inl (c2 r (by simp))
        have hbelow : ∀ b ∈ rest, low ≤ b.low := by
          rcases rest with _ | ⟨r, rs⟩
          · simp
          · have hr := c2 r (by simp)
            have hrle := ((ascending_cons _ _).1 hrest).1
            rintro b (_ | ⟨_, hb⟩)
            · omega
            · have := ((ascending_cons _ _).1 hrest).2.1 b hb
              omega
        obtain ⟨hA, hC⟩ := absorbScan_spec h.tail hle hbelow ha
        refine ⟨(ascending_cons _ _).2 ⟨hnle, (lt_low_iff hA _).2 fun v hv => ?_, hA⟩,
          fun v => ?_⟩
        · rcases (hC v).1 hv with hv | hv
          · omega
          · exact h.lt_covers hv
        · simp only [covers_cons, hC]
          exact or_left_comm
      · rw [if_neg fun hc => c2 hc.2]
        have hslot : hasSlot low high rest = true := by
          refine hs.resolve_left fun hc => c2 fun m hm => ?_
          rw [Option.mem_def.1 hm] at hc
          simpa using hc
        obtain ⟨hA, hC⟩ := ih h.tail hslot
        refine ⟨(ascending_cons _ _).2 ⟨hnle, (lt_low_iff hA _).2 fun v hv => ?_, hA⟩,
          fun v => ?_⟩
        · rcases (hC v).1 hv with hv | hv
          · omega
          · exact h.lt_covers hv
        · simp only [covers_cons, hC]
          exact or_left_comm

/-- **Append a range.** Where the range fits, the scan adds its values to a list in order and
keeps the order. -/
theorem appendRangeScan_spec {low high : ℕ} {l : List RangeNode} (h : Ordered l)
    (hle : low ≤ high) (hs : rangeFits low high l = true) :
    Ascending (appendRangeScan low high [] l) ∧
      ∀ v, Covers (appendRangeScan low high [] l) v ↔ (low ≤ v ∧ v ≤ high) ∨ Covers l v := by
  simp only [rangeFits, Bool.or_eq_true, List.isEmpty_iff] at hs
  rcases hs with rfl | hs
  · refine ⟨by simpa [appendRangeScan] using hle, fun v => ?_⟩
    simp [appendRangeScan, Range.Has]
  · exact appendRangeScan_slot h hle hs

/-- **Remove.** The scan takes its value out of a list in order, and keeps the order unless
the value lies strictly inside a range. -/
theorem removeScan_spec {value : ℕ} {l : List RangeNode} (h : Ordered l)
    (hs : ∀ r ∈ l, ¬ (r.low < value ∧ value < r.high)) :
    Ascending (removeScan value l) ∧
      ∀ v, Covers (removeScan value l) v ↔ Covers l v ∧ v ≠ value := by
  induction l with
  | nil => simp [removeScan]
  | cons n rest ih =>
    obtain ⟨hlo, hle, hhi⟩ := h.head
    obtain ⟨-, hnext, hrest⟩ := (ascending_cons _ _).1 h.asc
    have hbeyond : ∀ v, Covers rest v → n.high < v := fun v hv => h.lt_covers hv
    rw [removeScan, inc64_eq (by omega), dec64_eq (by omega) (by omega)]
    split_ifs with c1 c2 c3 c4
    · -- the range held that value alone
      refine ⟨hrest, fun v => ?_⟩
      simp only [covers_cons, Range.Has]
      have := hbeyond v
      constructor
      · intro hv
        have := this hv
        exact ⟨.inr hv, by omega⟩
      · rintro ⟨hv | hv, hne⟩
        · omega
        · exact hv
    · refine ⟨(ascending_cons _ _).2 ⟨by simp; omega, hnext, hrest⟩, fun v => ?_⟩
      simp only [covers_cons, Range.Has]
      have := hbeyond v
      constructor
      · rintro (hv | hv)
        · exact ⟨.inl (by omega), by omega⟩
        · exact ⟨.inr hv, by have := this hv; omega⟩
      · rintro ⟨hv | hv, hne⟩
        · exact .inl (by omega)
        · exact .inr hv
    · refine ⟨(ascending_cons _ _).2 ⟨by simp; omega, fun b hb => ?_, hrest⟩, fun v => ?_⟩
      · have := hnext b hb
        simp
        omega
      simp only [covers_cons, Range.Has]
      have := hbeyond v
      constructor
      · rintro (hv | hv)
        · exact ⟨.inl (by omega), by omega⟩
        · exact ⟨.inr hv, by have := this hv; omega⟩
      · rintro ⟨hv | hv, hne⟩
        · exact .inl (by omega)
        · exact .inr hv
    · exact absurd c4 (hs n (by simp))
    · obtain ⟨ihA, ihC⟩ := ih h.tail fun r hr => hs r (by simp [hr])
      refine ⟨(ascending_cons _ _).2 ⟨hle, (lt_low_iff ihA _).2 ?_, ihA⟩, fun v => ?_⟩
      · intro v hv
        exact hbeyond v ((ihC v).1 hv).1
      · simp only [covers_cons, ihC, Range.Has]
        have : (n.low ≤ v ∧ v ≤ n.high) → v ≠ value := by omega
        rw [or_and_right, and_iff_left_of_imp this]

/-- **Batch append.** From values in strictly ascending order above the ranges made so far the
loop makes a list in order. -/
theorem batchScan_spec {ranges : List RangeNode} {vs : List ℕ} (h : Ascending ranges.reverse)
    (hs : vs.Pairwise (· < ·)) (hv : ∀ v ∈ vs, v < 2 ^ 48)
    (hgt : ∀ p ∈ ranges, ∀ v ∈ vs, p.high < v) :
    Ascending (batchScan ranges vs) ∧
      ∀ v, Covers (batchScan ranges vs) v ↔ v ∈ vs ∨ Covers ranges v := by
  induction vs generalizing ranges with
  | nil => simp [batchScan, h]
  | cons w ws ih =>
    obtain ⟨hw, hws⟩ := List.pairwise_cons.1 hs
    have hwb := hv w (by simp)
    have hv' : ∀ v ∈ ws, v < 2 ^ 48 := fun v hm => hv v (by simp [hm])
    rcases ranges with _ | ⟨p, ps⟩
    · -- the first range
      rw [batchScan.eq_def]
      obtain ⟨ihA, ihC⟩ := ih
        (show Ascending [(⟨w, w⟩ : RangeNode)].reverse by simp) hws hv' (by simpa using hw)
      refine ⟨ihA, fun v => ?_⟩
      simp only [ihC, covers_cons, covers_nil, Range.Has, List.mem_cons, or_false]
      constructor
      · rintro (hm | hm)
        · exact .inr hm
        · exact .inl (by omega)
      · rintro (rfl | hm)
        · exact .inr (by omega)
        · exact .inl hm
    · have hpw := hgt p (by simp) w (by simp)
      obtain ⟨hps, hple, hlast⟩ := (ascending_reverse_cons _ _).1 h
      rw [batchScan.eq_def]
      dsimp only
      rw [inc64_eq (by omega)]
      by_cases c : p.high + 1 = w
      · -- the last range goes on
        rw [if_pos c]
        have hA : Ascending (⟨p.low, w⟩ :: ps).reverse :=
          (ascending_reverse_cons _ _).2 ⟨hps, by simp; omega, hlast⟩
        obtain ⟨ihA, ihC⟩ := ih hA hws hv' (by
          rintro q (_ | ⟨_, hq⟩) v hvm
          · exact hw v hvm
          · exact hgt q (List.mem_cons_of_mem _ hq) v (List.mem_cons_of_mem _ hvm))
        refine ⟨ihA, fun v => ?_⟩
        simp only [ihC, covers_cons, Range.Has, List.mem_cons]
        have : (p.low ≤ v ∧ v ≤ w) ↔ v = w ∨ (p.low ≤ v ∧ v ≤ p.high) := by omega
        rw [this]
        rw [or_assoc, or_assoc, or_left_comm]
      · -- a new range
        rw [if_neg c]
        have hA : Ascending (⟨w, w⟩ :: p :: ps).reverse :=
          (ascending_reverse_cons _ _).2 ⟨h, le_rfl, fun a ha => hgt a ha w (by simp)⟩
        obtain ⟨ihA, ihC⟩ := ih hA hws hv' (by
          rintro q (_ | ⟨_, hq⟩) v hvm
          · exact hw v hvm
          · exact hgt q hq v (List.mem_cons_of_mem _ hvm))
        refine ⟨ihA, fun v => ?_⟩
        simp only [ihC, covers_cons, Range.Has, List.mem_cons]
        have : (w ≤ v ∧ v ≤ w) ↔ v = w := by omega
        rw [this]
        rw [or_assoc, or_left_comm]

/-- Sorting by a comparator that agrees with the order on these values sorts them. -/
lemma pairwise_mergeSort_cmp {vs : List ℕ} (hn : vs.Nodup)
    (hc : ∀ a ∈ vs, ∀ b ∈ vs, idsetQsortCmp a b ≤ 0 ↔ a ≤ b) :
    (vs.mergeSort fun a b => idsetQsortCmp a b ≤ 0).Pairwise (· < ·) := by
  have heq : (vs.mergeSort fun a b => idsetQsortCmp a b ≤ 0) = vs.mergeSort fun a b => a ≤ b := by
    have := List.map_mergeSort (r := fun a b => decide (idsetQsortCmp a b ≤ 0))
      (s := fun a b : ℕ => decide (a ≤ b)) (f := id) (l := vs) (by simpa using hc)
    simpa using this
  have hle : (vs.mergeSort fun a b => a ≤ b).Pairwise (· ≤ ·) := by
    have := List.pairwise_mergeSort
      (show ∀ a b c : ℕ, decide (a ≤ b) = true → decide (b ≤ c) = true → decide (a ≤ c) = true from
        fun a b c => by simpa using le_trans)
      (fun a b => by simpa using le_total a b) vs
    simpa using this
  rw [heq]
  have hnd : (vs.mergeSort fun a b => a ≤ b).Nodup := (List.mergeSort_perm vs _).nodup_iff.2 hn
  exact (hle.and hnd).imp fun h => lt_of_le_of_ne h.1 h.2

end SteepSystem.Idsets.Scan
