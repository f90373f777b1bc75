import SteepSystem.Idsets.Decoding

/-!
`idset_deserialize` on arbitrary bytes, for both types of set: records, each the number or the
GUID of a replica and its globset, up to the end of the input or to the first that is not whole.
-/

namespace SteepSystem.Idsets.Globset

open SteepSystem.Lib.Bytes SteepSystem.Lib.Ranges SteepSystem.Idsets.Model Position

/-- The bytes of a `replid` or of a `replguid`. -/
def headerLength : ReplType → ℕ
  | .id => 2
  | .guid => 16

/-- The loop of `idset_deserialize`: its result and the nodes, each with the bytes that its
replica is read from. -/
def deserializeNodes (replType : ReplType) :
    ℕ → List UInt8 → Option (Bool × List (List UInt8 × List RangeNode))
  | _, [] => some (true, [])
  | 0, _ :: _ => none
  | fuel + 1, bytes@(_ :: _) =>
    let rest := bytes.drop (headerLength replType)
    if bytes.length < headerLength replType then none
    else if rest = [] then some (false, [])
    else do
      let (length, rangeList) ← idsetDecodingGlobset rest
      let node := (bytes.take (headerLength replType), rangeList)
      if length = 0 then some (false, [node])
      else
        let (ok, nodes) ← deserializeNodes replType fuel (rest.drop length)
        return (ok, node :: nodes)

/-- With replica numbers it is the loop of the model. -/
lemma deserializeLoop_eq (fuel : ℕ) (bytes : List UInt8) (offset : ℕ) (nodes : List ReplidNode) :
    (deserializeLoop fuel bytes offset nodes).map (fun r => (r.1, r.2.2)) =
      (deserializeNodes .id fuel bytes).map fun r =>
        (r.1, nodes ++ r.2.map fun n => ⟨ofLE n.1, n.2⟩) := by
  induction fuel generalizing bytes offset nodes with
  | zero =>
    rcases bytes with _ | ⟨b0, _ | ⟨b1, bytes⟩⟩ <;> simp [deserializeLoop, deserializeNodes]
  | succ fuel ih =>
    rcases bytes with _ | ⟨b0, _ | ⟨b1, bytes⟩⟩
    · simp [deserializeLoop, deserializeNodes]
    · simp [deserializeLoop, deserializeNodes, headerLength]
    · rw [deserializeLoop, deserializeNodes]
      simp only [headerLength, List.length_cons, List.drop_succ_cons, List.drop_zero,
        List.take_succ_cons, List.take_zero]
      rw [if_neg (show ¬bytes.length + 1 + 1 < 2 by omega)]
      by_cases hnil : bytes = []
      · rw [if_pos hnil, if_pos hnil]
        simp
      rw [if_neg hnil, if_neg hnil]
      cases idsetDecodingGlobset bytes with
      | none => rfl
      | some r =>
        obtain ⟨length, rangeList⟩ := r
        simp only [Option.bind_eq_bind, Option.bind_some]
        by_cases h0 : length = 0
        · rw [if_pos h0, if_pos h0]
          simp
        rw [if_neg h0, if_neg h0, ih]
        cases deserializeNodes .id fuel (bytes.drop length) with
        | none => rfl
        | some r => simp

variable {replType : ReplType} {bytes rest : List UInt8}

/-- From one record to the next: its globset comes to an end command. -/
def NextRecord (replType : ReplType) (bytes rest : List UInt8) : Prop :=
  bytes ≠ [] ∧ ∃ o, EndsAt (start (bytes.drop (headerLength replType))) o ∧
    rest = (bytes.drop (headerLength replType)).drop o

def Records (replType : ReplType) : List UInt8 → List UInt8 → Prop :=
  Relation.ReflTransGen (NextRecord replType)

/-- The offsets in a record at which its replica is read. -/
def headerReads (replType : ReplType) (bytes : List UInt8) : List ℕ :=
  if bytes = [] then [] else List.range (headerLength replType)

/-- What a call of `idset_deserialize` should guarantee: the same, for the records and for the
globset of each. -/
structure Deserializes (replType : ReplType) (bytes : List UInt8) : Prop where
  stops : Acc (fun rest bytes => NextRecord replType bytes rest) bytes
  header : ∀ rest, Records replType bytes rest → ∀ i ∈ headerReads replType rest, i < rest.length
  globset : ∀ rest, Records replType bytes rest →
    Acc (fun q p : Position => p.turn = some q) (start (rest.drop (headerLength replType))) ∧
      ∀ q, Reach (start (rest.drop (headerLength replType))) q →
        q.Safe (rest.drop (headerLength replType)).length
  ordered : ∀ nodes, deserializeNodes replType bytes.length bytes = some (true, nodes) →
    ∀ n ∈ nodes, ∀ r ∈ n.2, r.low ≤ r.high

/-- No record is shorter than its header and all commands fit; and if the records end where the
input does, all their ranges are in order. -/
structure Complete (replType : ReplType) (bytes : List UInt8) : Prop where
  header : ∀ rest, Records replType bytes rest → rest ≠ [] → headerLength replType ≤ rest.length
  fits : ∀ rest, Records replType bytes rest →
    ∀ q, Reach (start (rest.drop (headerLength replType))) q → q.Fits
  ordered : Records replType bytes [] → ∀ rest, Records replType bytes rest →
    ∀ q, Reach (start (rest.drop (headerLength replType))) q → q.Ordered

lemma NextRecord.length_lt (h : NextRecord replType bytes rest) : rest.length < bytes.length := by
  obtain ⟨hne, o, -, rfl⟩ := h
  have hpos : 0 < bytes.length := List.length_pos_iff.mpr hne
  have hheader : 0 < headerLength replType := by cases replType <;> decide
  simp only [List.length_drop]
  omega

lemma NextRecord.unique {rest' : List UInt8} (h : NextRecord replType bytes rest)
    (h' : NextRecord replType bytes rest') : rest = rest' := by
  obtain ⟨-, o, ho, rfl⟩ := h
  obtain ⟨-, o', ho', rfl⟩ := h'
  have hspec := (idsetDecodingGlobset_spec (bytes.drop (headerLength replType))).1
  obtain ⟨g, hg, -⟩ := (hspec o).mp ho
  obtain ⟨g', hg', -⟩ := (hspec o').mp ho'
  cases hg.symm.trans hg'
  rfl

lemma acc_nextRecord (bytes : List UInt8) :
    Acc (fun rest bytes => NextRecord replType bytes rest) bytes := by
  induction hn : bytes.length using Nat.strongRecOn generalizing bytes with
  | ind n ih =>
    subst hn
    exact ⟨bytes, fun rest hnext => ih _ hnext.length_lt rest rfl⟩

lemma records_all {Q : List UInt8 → Prop} (h : NextRecord replType bytes rest) :
    (∀ r, Records replType bytes r → Q r) ↔ Q bytes ∧ ∀ r, Records replType rest r → Q r := by
  constructor
  · exact fun hall => ⟨hall bytes .refl, fun r hr => hall r (.head h hr)⟩
  · rintro ⟨hb, hrest⟩ r hr
    rcases Relation.ReflTransGen.cases_head hr with rfl | ⟨s, hs, hr⟩
    · exact hb
    · rw [hs.unique h] at hr
      exact hrest r hr

lemma records_nil {r : List UInt8} : Records replType [] r ↔ r = [] := by
  constructor
  · intro hr
    rcases Relation.ReflTransGen.cases_head hr with rfl | ⟨s, hs, -⟩
    · rfl
    · exact absurd rfl hs.1
  · rintro rfl
    exact .refl

lemma nextRecord_iff (hne : bytes ≠ []) : NextRecord replType bytes rest ↔
    ∃ length g, idsetDecodingGlobset (bytes.drop (headerLength replType)) = some (length, g) ∧
      length ≠ 0 ∧ rest = (bytes.drop (headerLength replType)).drop length := by
  have hspec := (idsetDecodingGlobset_spec (bytes.drop (headerLength replType))).1
  constructor
  · rintro ⟨-, o, ho, rfl⟩
    obtain ⟨g, hg, h0⟩ := (hspec o).mp ho
    exact ⟨o, g, hg, h0, rfl⟩
  · rintro ⟨o, g, hg, h0, rfl⟩
    exact ⟨hne, o, (hspec o).mpr ⟨g, hg, h0⟩, rfl⟩

lemma deserializeNodes_cons {fuel : ℕ} (hne : bytes ≠ []) :
    deserializeNodes replType (fuel + 1) bytes =
      if bytes.length < headerLength replType then none
      else if bytes.drop (headerLength replType) = [] then some (false, [])
      else (idsetDecodingGlobset (bytes.drop (headerLength replType))).bind fun r =>
        if r.1 = 0 then some (false, [(bytes.take (headerLength replType), r.2)])
        else (deserializeNodes replType fuel ((bytes.drop (headerLength replType)).drop r.1)).map
          fun s => (s.1, (bytes.take (headerLength replType), r.2) :: s.2) := by
  obtain ⟨b, bytes, rfl⟩ := List.exists_cons_of_ne_nil hne
  rw [deserializeNodes]
  refine if_congr Iff.rfl rfl (if_congr Iff.rfl rfl (congrArg _ (funext fun r => ?_)))
  refine if_congr Iff.rfl rfl ?_
  rw [Option.map_eq_bind]
  rfl

lemma deserializeNodes_end {fuel : ℕ} (hne : bytes ≠ [])
    (hno : ∀ rest, ¬NextRecord replType bytes rest) (nodes : List (List UInt8 × List RangeNode)) :
    deserializeNodes replType (fuel + 1) bytes ≠ some (true, nodes) := by
  intro h
  rw [deserializeNodes_cons hne] at h
  split_ifs at h with hlt hnil
  · cases h
  · obtain ⟨⟨length, g⟩, hg, h⟩ := Option.bind_eq_some_iff.mp h
    dsimp only at h
    split_ifs at h with h0
    · cases h
    · exact hno _ ((nextRecord_iff hne).mpr ⟨length, g, hg, h0, rfl⟩)

lemma deserializeNodes_next {fuel length : ℕ} {g : List RangeNode} (hne : bytes ≠ [])
    (hg : idsetDecodingGlobset (bytes.drop (headerLength replType)) = some (length, g))
    (h0 : length ≠ 0) :
    deserializeNodes replType (fuel + 1) bytes =
      (deserializeNodes replType fuel ((bytes.drop (headerLength replType)).drop length)).map
        fun s => (s.1, (bytes.take (headerLength replType), g) :: s.2) := by
  have hnil : bytes.drop (headerLength replType) ≠ [] := by
    intro hnil
    rw [hnil] at hg
    cases hg
    exact h0 rfl
  have hlt : ¬bytes.length < headerLength replType :=
    fun hlt => hnil (List.drop_eq_nil_of_le hlt.le)
  rw [deserializeNodes_cons hne, if_neg hlt, if_neg hnil, hg, Option.bind_some, if_neg h0]

lemma ordered_nil {q : Position} (h : Reach (start []) q) : q.Ordered := by
  rcases Relation.ReflTransGen.cases_head h with rfl | ⟨r, hr, -⟩
  · rintro bytes hb
    cases hb
  · cases hr

/-- The loop succeeds exactly if the records end where the input does, and then its nodes hold
the ranges of all of them. -/
lemma deserializeNodes_spec {fuel : ℕ} (hfuel : bytes.length ≤ fuel) :
    (Records replType bytes [] ↔ ∃ nodes, deserializeNodes replType fuel bytes = some (true, nodes))
      ∧ ∀ nodes, deserializeNodes replType fuel bytes = some (true, nodes) →
        ((∀ n ∈ nodes, ∀ r ∈ n.2, r.low ≤ r.high) ↔ ∀ rest, Records replType bytes rest →
          ∀ q, Reach (start (rest.drop (headerLength replType))) q → q.Ordered) := by
  induction fuel generalizing bytes with
  | zero =>
    obtain rfl : bytes = [] := List.length_eq_zero_iff.mp (Nat.le_zero.mp hfuel)
    rw [deserializeNodes]
    refine ⟨iff_of_true .refl ⟨_, rfl⟩, fun nodes h => ?_⟩
    cases h
    refine iff_of_true (by simp) fun rest hrest q hq => ?_
    obtain rfl := records_nil.mp hrest
    rw [List.drop_nil] at hq
    exact ordered_nil hq
  | succ fuel ih =>
    by_cases hne : bytes = []
    · subst hne
      rw [deserializeNodes]
      refine ⟨iff_of_true .refl ⟨_, rfl⟩, fun nodes h => ?_⟩
      cases h
      refine iff_of_true (by simp) fun rest hrest q hq => ?_
      obtain rfl := records_nil.mp hrest
      rw [List.drop_nil] at hq
      exact ordered_nil hq
    by_cases hno : ∀ rest, ¬NextRecord replType bytes rest
    · refine ⟨iff_of_false ?_ ?_, fun nodes h => absurd h (deserializeNodes_end hne hno nodes)⟩
      · intro hr
        rcases Relation.ReflTransGen.cases_head hr with rfl | ⟨rest, hrest, -⟩
        · exact hne rfl
        · exact hno rest hrest
      · rintro ⟨nodes, h⟩
        exact deserializeNodes_end hne hno nodes h
    · push Not at hno
      obtain ⟨rest, hnext⟩ := hno
      obtain ⟨length, g, hg, h0, rfl⟩ := (nextRecord_iff hne).mp hnext
      have hlt := hnext.length_lt
      obtain ⟨hends, hnodes⟩ := ih (Nat.le_of_lt_succ (hlt.trans_le hfuel))
      rw [deserializeNodes_next hne hg h0]
      constructor
      · have hrest : Records replType bytes [] ↔
            Records replType ((bytes.drop (headerLength replType)).drop length) [] := by
          refine ⟨fun hr => ?_, fun hr => .head hnext hr⟩
          rcases Relation.ReflTransGen.cases_head hr with rfl | ⟨s, hs, hr⟩
          · exact absurd rfl hne
          · rwa [hs.unique hnext] at hr
        rw [hrest, hends]
        constructor
        · rintro ⟨nodes, h⟩
          exact ⟨_, by rw [h]; rfl⟩
        · rintro ⟨nodes, h⟩
          obtain ⟨⟨ok, nodes'⟩, hs, h⟩ := Option.map_eq_some_iff.mp h
          cases h
          exact ⟨nodes', hs⟩
      · intro nodes h
        obtain ⟨⟨ok, nodes'⟩, hs, h⟩ := Option.map_eq_some_iff.mp h
        cases h
        rw [records_all hnext, List.forall_mem_cons, hnodes nodes' hs]
        exact and_congr_left fun _ =>
          (idsetDecodingGlobset_spec (bytes.drop (headerLength replType))).2 length g hg h0

lemma deserializes_iff (replType : ReplType) (bytes : List UInt8) :
    Deserializes replType bytes ↔ Complete replType bytes := by
  obtain ⟨hends, hnodes⟩ := @deserializeNodes_spec replType bytes bytes.length le_rfl
  have hheader (rest : List UInt8) : (∀ i ∈ headerReads replType rest, i < rest.length) ↔
      (rest ≠ [] → headerLength replType ≤ rest.length) := by
    rw [headerReads]
    have hpos : 0 < headerLength replType := by cases replType <;> decide
    split_ifs with hnil
    · simp [hnil]
    · simp only [List.mem_range]
      constructor
      · intro h _
        have := h (headerLength replType - 1) (by omega)
        omega
      · exact fun h i hi => hi.trans_le (h hnil)
  constructor
  · rintro ⟨-, hread, hglobset, hordered⟩
    refine ⟨fun rest hrest => (hheader rest).mp (hread rest hrest), fun rest hrest => ?_,
      fun hend => ?_⟩
    · exact (safe_iff_fits _).mp (hglobset rest hrest).2
    · obtain ⟨nodes, h⟩ := hends.mp hend
      exact (hnodes nodes h).mp (hordered nodes h)
  · rintro ⟨hread, hfits, hordered⟩
    refine ⟨acc_nextRecord bytes, fun rest hrest => (hheader rest).mpr (hread rest hrest),
      fun rest hrest => ⟨acc_turn _, (safe_iff_fits _).mpr (hfits rest hrest)⟩, fun nodes h => ?_⟩
    exact (hnodes nodes h).mpr (hordered (hends.mpr ⟨nodes, h⟩))

/-- **What is decoded safely**: a globset and a set are decoded within their bytes, within the six
common bytes and into ranges that are in order if and only if every command has its bytes, every
push fits on the stack, and no range command of an input that is accepted is reversed. -/
theorem decoding_sound_iff (bytes : List UInt8) :
    (Sound bytes ↔ WellFormed bytes) ∧
      ∀ replType, Deserializes replType bytes ↔ Complete replType bytes :=
  ⟨sound_iff bytes, fun replType => deserializes_iff replType bytes⟩

/-- A push whose byte is not there, a stack of eleven bytes, and a range from two down to one. -/
theorem not_decoding_sound :
    ¬Sound [1] ∧ ¬Sound [5, 0, 0, 0, 0, 0, 6, 0, 0, 0, 0, 0, 0, 0] ∧
      ¬Sound [0x52, 0, 0, 0, 0, 0, 2, 0, 0, 0, 0, 0, 1, 0] := by
  refine ⟨fun h => ?_, fun h => ?_, fun h => ?_⟩
  · have := (h.safe _ .refl).reads 1 (by decide)
    exact absurd this (by decide)
  · have hturn : Reach (start [5, 0, 0, 0, 0, 0, 6, 0, 0, 0, 0, 0, 0, 0])
        ⟨6, [6, 0, 0, 0, 0, 0, 0, 0], [[0, 0, 0, 0, 0]]⟩ := .single rfl
    have := (h.safe _ hturn).writes 10 (by decide)
    exact absurd this (by decide)
  · have := h.ordered 14 [⟨2, 1⟩] (by decide) (by decide) ⟨2, 1⟩ (by decide)
    exact absurd this (by decide)

end SteepSystem.Idsets.Globset
