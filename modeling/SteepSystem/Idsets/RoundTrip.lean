import SteepSystem.Idsets.Globset
import SteepSystem.Idsets.Run

/-!
What the encoder writes, the decoder reads back, when all end points of a list have the prefix
that the encoder takes from its first and its last range.
-/

namespace SteepSystem.Idsets.RoundTrip

open SteepSystem.Lib.Bytes SteepSystem.Lib.Ranges SteepSystem.Lib.Runs SteepSystem.RopUtil
open SteepSystem.Idsets.Model SteepSystem.Idsets.Scan SteepSystem.Idsets.Run
open SteepSystem.Idsets.Globset

section CommonLength

lemma take_commonLength (a b : List UInt8) :
    a.take (commonLength a b) = b.take (commonLength a b) := by
  fun_induction commonLength a b <;> simp_all

lemma commonLength_lt {a b : List UInt8} (hl : a.length = b.length) (h : a ≠ b) :
    commonLength a b < a.length := by
  induction a generalizing b with
  | nil => cases b <;> simp_all
  | cons x xs ih =>
    rcases b with _ | ⟨y, ys⟩
    · simp at hl
    · rw [commonLength]
      split_ifs with hxy
      · have := ih (by simpa using hl) (by rintro rfl; exact h (by rw [hxy]))
        simpa using this
      · simp

end CommonLength

/-- With enough fuel the loop comes to this result. -/
def Decodes (bytes : List UInt8) (offset : ℕ) (stack : List (List UInt8))
    (globset : List RangeNode) (result : ℕ × List RangeNode) : Prop :=
  ∀ fuel, bytes.length ≤ fuel → decodingLoop fuel bytes offset stack globset = some result

section Commands

variable {rest : List UInt8} {offset : ℕ} {stack : List (List UInt8)} {globset : List RangeNode}
  {result : ℕ × List RangeNode} {p : List UInt8}

lemma decodes_end : Decodes (0 :: rest) offset stack globset (offset + 1, globset) := by
  rintro (_ | fuel) hf
  · simp at hf
  · simp [decodingLoop]

lemma decodes_pop (h : Decodes rest (offset + 1) stack.tail globset result) :
    Decodes (0x50 :: rest) offset stack globset result := by
  rintro (_ | fuel) hf
  · simp at hf
  · simpa [decodingLoop] using h fuel (by simpa using hf)

lemma ofNat_command {k : ℕ} (h1 : 1 ≤ k) (h6 : k ≤ 6) :
    UInt8.ofNat k ≠ 0 ∧ UInt8.ofNat k ≤ 6 ∧ (UInt8.ofNat k).toNat = k := by
  interval_cases k <;> decide

lemma decodes_push (hp : stack.reverse.flatten = p) {bs : List UInt8} (h1 : 1 ≤ bs.length)
    (h6 : p.length + bs.length < 6)
    (h : Decodes rest (offset + 1 + bs.length) (bs :: stack) globset result) :
    Decodes (UInt8.ofNat bs.length :: (bs ++ rest)) offset stack globset result := by
  obtain ⟨hc0, hc6, hcn⟩ := ofNat_command h1 (by omega)
  rintro (_ | fuel) hf
  · simp at hf
  · have hrest := h fuel (by simp at hf; omega)
    rw [decodingLoop.eq_def]
    simp only [if_neg hc0, if_pos hc6, hcn, hp, List.length_append, List.take_left,
      List.drop_left]
    rw [if_neg (by omega), if_neg (by omega), if_neg (by omega), hrest]

/-- Six bytes in all are a value, which leaves the stack at once. -/
lemma decodes_value (hp : stack.reverse.flatten = p) {bs : List UInt8} (h1 : 1 ≤ bs.length)
    (h6 : p.length + bs.length = 6)
    (h : Decodes rest (offset + 1 + bs.length) stack
      (globset ++ [⟨ropUtilGcToValue (p ++ bs), ropUtilGcToValue (p ++ bs)⟩]) result) :
    Decodes (UInt8.ofNat bs.length :: (bs ++ rest)) offset stack globset result := by
  obtain ⟨hc0, hc6, hcn⟩ := ofNat_command h1 (by omega)
  rintro (_ | fuel) hf
  · simp at hf
  · have hrest := h fuel (by simp at hf; omega)
    rw [decodingLoop.eq_def]
    simp only [if_neg hc0, if_pos hc6, hcn, hp, List.length_append, List.take_left,
      List.drop_left]
    rw [if_neg (by omega), if_pos (by omega), hrest]

lemma decodes_range (hp : stack.reverse.flatten = p) {lo hi : List UInt8} (h5 : p.length ≤ 5)
    (hlo : lo.length = 6 - p.length) (hhi : hi.length = 6 - p.length)
    (h : Decodes rest (offset + 1 + 2 * lo.length) stack
      (globset ++ [⟨ropUtilGcToValue (p ++ lo), ropUtilGcToValue (p ++ hi)⟩]) result) :
    Decodes (0x52 :: (lo ++ hi ++ rest)) offset stack globset result := by
  have hd : (lo ++ hi ++ rest).drop (2 * (6 - p.length)) = rest := by
    rw [List.drop_left']
    rw [List.length_append]
    omega
  have ht : (lo ++ hi ++ rest).take (6 - p.length) = lo := by
    rw [List.append_assoc, ← hlo, List.take_left]
  have hm : ((lo ++ hi ++ rest).drop (6 - p.length)).take (6 - p.length) = hi := by
    rw [List.append_assoc, ← hlo, List.drop_left, hlo, ← hhi, List.take_left]
  rintro (_ | fuel) hf
  · simp at hf
  · have hrest := h fuel (by simp at hf; omega)
    rw [decodingLoop.eq_def]
    simp only [hp, hd, ht, hm, if_neg (show ¬ (0x52 : UInt8) = 0 by decide),
      if_neg (show ¬ (0x52 : UInt8) ≤ 6 by decide),
      if_neg (show ¬ (0x52 : UInt8) = 0x42 by decide),
      if_neg (show ¬ (0x52 : UInt8) = 0x50 by decide), if_true]
    rw [if_neg (by omega), if_neg (by simp; omega), ← hlo, hrest]

end Commands

/-- Both ends of a range are below 2⁴⁸ and have `k` leading bytes in common with `p`. -/
def HasPrefix (k : ℕ) (p : List UInt8) (r : RangeNode) : Prop :=
  r.low < 2 ^ 48 ∧ r.high < 2 ^ 48 ∧
    (ropUtilValueToGc r.low).take k = p ∧ (ropUtilValueToGc r.high).take k = p

instance (k : ℕ) (p : List UInt8) (r : RangeNode) : Decidable (HasPrefix k p r) :=
  inferInstanceAs (Decidable (_ ∧ _))

lemma valueToGc_inj {a b : ℕ} (ha : a < 2 ^ 48) (hb : b < 2 ^ 48)
    (h : ropUtilValueToGc a = ropUtilValueToGc b) : a = b := by
  rw [← ropUtilGcToValue_valueToGc ha, h, ropUtilGcToValue_valueToGc hb]

/-- The bytes written for one range, and what the decoder makes of them. -/
lemma encodeRange_spec {stack : List (List UInt8)} {p : List UInt8} {r : RangeNode}
    (hp : stack.reverse.flatten = p) (h5 : p.length ≤ 5) (hr : HasPrefix p.length p r) :
    ∃ bytes, encodeRange p.length r = some bytes ∧
      ∀ rest offset globset result,
        Decodes rest (offset + bytes.length) stack (globset ++ [r]) result →
          Decodes (bytes ++ rest) offset stack globset result := by
  obtain ⟨hlo, hhi, hlp, hhp⟩ := hr
  have hsplit : ∀ v, (ropUtilValueToGc v).take p.length = p →
      p ++ (ropUtilValueToGc v).drop p.length = ropUtilValueToGc v := by
    intro v hv
    calc p ++ (ropUtilValueToGc v).drop p.length
        = (ropUtilValueToGc v).take p.length ++ (ropUtilValueToGc v).drop p.length := by rw [hv]
      _ = ropUtilValueToGc v := List.take_append_drop ..
  by_cases heq : r.high = r.low
  · -- one value: its last bytes are pushed
    have hdl : ((ropUtilValueToGc r.low).drop p.length).length = 6 - p.length := by simp
    refine ⟨UInt8.ofNat (6 - p.length) :: (ropUtilValueToGc r.low).drop p.length, ?_, ?_⟩
    · simp only [encodeRange, if_pos heq, idsetEncodingPushCommand]
      rw [if_neg (by omega), List.take_of_length_le hdl.le]
    · intro rest offset globset result h
      rw [← hdl]
      refine decodes_value hp (by omega) (by omega) ?_
      have hrr : r = ⟨r.low, r.low⟩ := Range.ext rfl heq
      rw [hsplit _ hlp, ropUtilGcToValue_valueToGc hlo, ← hrr]
      simpa [add_assoc, add_comm, add_left_comm] using h
  · -- two ends: what more they have in common is pushed around the range
    have hne : (ropUtilValueToGc r.low).drop p.length ≠
        (ropUtilValueToGc r.high).drop p.length := by
      intro h
      refine heq (valueToGc_inj hhi hlo ?_)
      rw [← hsplit _ hlp, ← hsplit _ hhp, h]
    have hlt := commonLength_lt (by simp) hne
    have hcommon := take_commonLength ((ropUtilValueToGc r.low).drop p.length)
      ((ropUtilValueToGc r.high).drop p.length)
    simp only [encodeRange, if_neg heq]
    rw [← List.drop_drop, ← List.drop_drop]
    have hll : ((ropUtilValueToGc r.low).drop p.length).length = 6 - p.length := by simp
    have hhl : ((ropUtilValueToGc r.high).drop p.length).length = 6 - p.length := by simp
    have hls := hsplit _ hlp
    have hhs := hsplit _ hhp
    generalize (ropUtilValueToGc r.low).drop p.length = lo at *
    generalize (ropUtilValueToGc r.high).drop p.length = hi at *
    generalize commonLength lo hi = m at *
    rcases Nat.eq_zero_or_pos m with rfl | hm
    · refine ⟨0x52 :: (lo ++ hi), ?_, fun rest offset globset result h => ?_⟩
      · simp only [idsetEncodeRangeCommand, add_zero, List.drop_zero]
        rw [if_neg (by simp), if_neg (by omega), List.take_of_length_le hll.le,
          List.take_of_length_le hhl.le]
        simp
      · refine decodes_range hp h5 hll hhl ?_
        rw [hls, hhs, ropUtilGcToValue_valueToGc hlo, ropUtilGcToValue_valueToGc hhi]
        convert h using 1
        simp only [List.length_cons, List.length_append]
        omega
    · have htl : (lo.take m).length = m := by simp; omega
      have hld : (lo.drop m).take (6 - (p.length + m)) = lo.drop m :=
        List.take_of_length_le (by simp; omega)
      have hhd : (hi.drop m).take (6 - (p.length + m)) = hi.drop m :=
        List.take_of_length_le (by simp; omega)
      refine ⟨UInt8.ofNat m :: (lo.take m ++ 0x52 :: (lo.drop m ++ hi.drop m ++ [0x50])), ?_,
        fun rest offset globset result h => ?_⟩
      · simp only [idsetEncodeRangeCommand, idsetEncodingPushCommand, idsetEncodingPopCommand,
          hld, hhd]
        rw [if_pos (by omega), if_neg (by omega), if_neg (by omega), if_pos (by omega),
          Nat.add_sub_cancel_left]
        simp
      · have hpm : (lo.take m :: stack).reverse.flatten = p ++ lo.take m := by
          rw [List.reverse_cons, List.flatten_append, hp]
          simp
        have hpl : (p ++ lo.take m).length = p.length + m := by
          rw [List.length_append, htl]
        have hlow : (p ++ lo.take m) ++ lo.drop m = ropUtilValueToGc r.low := by
          rw [List.append_assoc, List.take_append_drop, hls]
        have hhigh : (p ++ lo.take m) ++ hi.drop m = ropUtilValueToGc r.high := by
          rw [hcommon, List.append_assoc, List.take_append_drop, hhs]
        have hpop : Decodes (0x50 :: rest) (offset + 1 + m + 1 + 2 * (lo.drop m).length)
            (lo.take m :: stack) (globset ++ [r]) result := by
          refine decodes_pop ?_
          convert h using 1
          · simp
            omega
          · rfl
        have hrange : Decodes (0x52 :: (lo.drop m ++ hi.drop m ++ 0x50 :: rest))
            (offset + 1 + m) (lo.take m :: stack) globset result := by
          refine decodes_range hpm (by omega) (by rw [hpl, List.length_drop]; omega)
            (by rw [hpl, List.length_drop]; omega) ?_
          rw [hlow, hhigh, ropUtilGcToValue_valueToGc hlo, ropUtilGcToValue_valueToGc hhi]
          exact hpop
        have hpush := decodes_push hp (show 1 ≤ (lo.take m).length by omega) (by omega)
          (by rw [htl]; exact hrange)
        rw [htl] at hpush
        simpa using hpush

lemma encodeRanges_spec {stack : List (List UInt8)} {p : List UInt8} {l : List RangeNode}
    (hp : stack.reverse.flatten = p) (h5 : p.length ≤ 5)
    (hl : ∀ r ∈ l, HasPrefix p.length p r) :
    ∃ bytes, encodeRanges p.length l = some bytes ∧
      ∀ rest offset globset result,
        Decodes rest (offset + bytes.length) stack (globset ++ l) result →
          Decodes (bytes ++ rest) offset stack globset result := by
  induction l with
  | nil => exact ⟨[], rfl, fun rest offset globset result h => by simpa using h⟩
  | cons r rs ih =>
    obtain ⟨b, hb, hdb⟩ := encodeRange_spec hp h5 (hl r (by simp))
    obtain ⟨bs, hbs, hdbs⟩ := ih fun q hq => hl q (by simp [hq])
    refine ⟨b ++ bs, by simp [encodeRanges, hb, hbs], fun rest offset globset result h => ?_⟩
    rw [List.append_assoc]
    refine hdb _ _ _ _ (hdbs _ _ _ _ ?_)
    simpa [add_assoc] using h

/-- The prefix that the encoder pushes for the whole list, no more than five bytes of it. -/
def sharedPrefix (first last : RangeNode) : List UInt8 :=
  (ropUtilValueToGc first.low).take (stackLengthOf first.low last.high)

/-- The lists that the encoder is made for: one range with its ends below 2⁴⁸, or several that
all have the bytes that the first and the last one have in common, which are not all six. -/
def Encodable : List RangeNode → Prop
  | [] => True
  | [r] => r.low < 2 ^ 48 ∧ r.high < 2 ^ 48
  | r :: rs =>
    stackLengthOf r.low ((r :: rs).getLast (List.cons_ne_nil r rs)).high ≤ 5 ∧
      ∀ q ∈ r :: rs,
        HasPrefix (stackLengthOf r.low ((r :: rs).getLast (List.cons_ne_nil r rs)).high)
          (sharedPrefix r ((r :: rs).getLast (List.cons_ne_nil r rs))) q

instance : DecidablePred Encodable
  | [] => inferInstanceAs (Decidable True)
  | [_] => inferInstanceAs (Decidable (_ ∧ _))
  | _ :: _ :: _ => inferInstanceAs (Decidable (_ ∧ _))

/-- **One list.** The decoder reads an encodable list back and stops right behind it. -/
lemma decoding_encoding {l : List RangeNode} (hne : l ≠ []) (h : Encodable l) :
    ∃ bytes, idsetEncodingGlobset l = some bytes ∧ 0 < bytes.length ∧
      ∀ rest, idsetDecodingGlobset (bytes ++ rest) = some (bytes.length, l) := by
  have hrun : ∀ {bytes rest : List UInt8} {r : ℕ × List RangeNode},
      Decodes (bytes ++ rest) 0 [] [] r → idsetDecodingGlobset (bytes ++ rest) = some r :=
    fun hd => hd _ le_rfl
  rcases l with _ | ⟨r, _ | ⟨q, qs⟩⟩
  · exact absurd rfl hne
  · -- one range alone
    obtain ⟨hlo, hhi⟩ := h
    by_cases heq : r.high = r.low
    · refine ⟨6 :: (ropUtilValueToGc r.low ++ [0]), ?_, by simp, fun rest => hrun ?_⟩
      · simp [idsetEncodingGlobset, heq, idsetEncodingPushCommand, idsetEncodeEndCommand]
      · have hd : Decodes (6 :: (ropUtilValueToGc r.low ++ 0 :: rest)) 0 [] [] _ :=
          decodes_value (p := []) rfl (by simp) (by simp) decodes_end
        simp only [List.nil_append, ropUtilGcToValue_valueToGc hlo] at hd
        have hrr : r = ⟨r.low, r.low⟩ := Range.ext rfl heq
        rw [hrr]
        simpa using hd
    · refine ⟨0x52 :: (ropUtilValueToGc r.low ++ ropUtilValueToGc r.high ++ [0]), ?_, by simp,
        fun rest => hrun ?_⟩
      · have hfull : ∀ v, (ropUtilValueToGc v).take 6 = ropUtilValueToGc v := fun v =>
          List.take_of_length_le (by simp)
        simp [idsetEncodingGlobset, heq, idsetEncodeRangeCommand, idsetEncodeEndCommand, hfull]
      · have hd : Decodes (0x52 :: (ropUtilValueToGc r.low ++ ropUtilValueToGc r.high ++
            0 :: rest)) 0 [] [] _ :=
          decodes_range (p := []) rfl (by simp) (by simp) (by simp) decodes_end
        simp only [List.nil_append, ropUtilGcToValue_valueToGc hlo,
          ropUtilGcToValue_valueToGc hhi] at hd
        simpa using hd
  · -- several: the shared prefix is pushed around them
    obtain ⟨h5, hall⟩ := h
    simp only [idsetEncodingGlobset]
    generalize (r :: q :: qs).getLast (by simp) = last at *
    have hpl : (sharedPrefix r last).length = stackLengthOf r.low last.high := by
      rw [sharedPrefix, List.length_take, length_ropUtilValueToGc]
      omega
    generalize hp : sharedPrefix r last = p at *
    rw [← hpl] at h5 hall ⊢
    rcases Nat.eq_zero_or_pos p.length with h0 | hpos
    · obtain rfl := List.length_eq_zero_iff.1 h0
      obtain ⟨b, hb, hdb⟩ := encodeRanges_spec (p := [])
        (show ([] : List (List UInt8)).reverse.flatten = [] from rfl) (by simp) hall
      refine ⟨b ++ [0], ?_, by simp, fun rest => hrun ?_⟩
      · rw [List.length_nil] at hb
        simp [hb, idsetEncodeEndCommand]
      · rw [List.append_assoc]
        refine hdb _ _ _ _ ?_
        have hd : Decodes (0 :: rest) b.length [] (r :: q :: qs) _ := decodes_end
        simpa using hd
    · obtain ⟨b, hb, hdb⟩ := encodeRanges_spec
        (show [p].reverse.flatten = p by simp) h5 hall
      have hpre : (ropUtilValueToGc r.low).take p.length = p := (hall r (by simp)).2.2.1
      refine ⟨UInt8.ofNat p.length :: (p ++ (b ++ [0x50, 0])), ?_, by simp,
        fun rest => hrun ?_⟩
      · rw [hb, if_pos (by omega), if_pos (by omega), idsetEncodingPushCommand,
          if_neg (by omega), hpre]
        simp [idsetEncodingPopCommand, idsetEncodeEndCommand]
      · have hend : Decodes (0x50 :: 0 :: rest) (1 + p.length + b.length) [p]
            ([] ++ (r :: q :: qs)) (1 + p.length + b.length + 2, r :: q :: qs) :=
          decodes_pop decodes_end
        have hd : Decodes (UInt8.ofNat p.length :: (p ++ (b ++ 0x50 :: 0 :: rest))) 0 [] [] _ :=
          decodes_push (p := []) rfl (by omega) (by simp; omega)
            (hdb _ _ _ _ (by rw [Nat.zero_add]; exact hend))
        convert hd using 2
        · simp
        · simp
          omega

/-- **Whole sets.** With encodable lists every node that has a range is read back. -/
lemma deserialize_serializeNodes {nodes : List ReplidNode}
    (hr : ∀ n ∈ nodes, n.replid < 65536) (he : ∀ n ∈ nodes, Encodable n.rangeList) :
    ∃ bytes, serializeNodes nodes = some bytes ∧
      ∀ fuel offset acc, bytes.length ≤ fuel →
        deserializeLoop fuel bytes offset acc =
          some (true, offset + bytes.length, acc ++ nodes.filter fun n => n.rangeList ≠ []) := by
  induction nodes with
  | nil => exact ⟨[], rfl, fun fuel offset acc _ => by simp [deserializeLoop]⟩
  | cons n ns ih =>
    obtain ⟨bs, hbs, hds⟩ := ih (fun m hm => hr m (by simp [hm])) fun m hm => he m (by simp [hm])
    rw [serializeNodes]
    by_cases hne : n.rangeList = []
    · exact ⟨bs, by rw [if_pos hne, hbs], by simpa [hne] using hds⟩
    · obtain ⟨g, hg, hpos, hdg⟩ := decoding_encoding hne (he n (by simp))
      refine ⟨le 2 n.replid ++ g ++ bs, by simp [if_neg hne, hg, hbs], ?_⟩
      rintro (_ | fuel) offset acc hf
      · simp at hf
      · have hrep : ofLE (le 2 n.replid) = n.replid := ofLE_le_of_lt (hr n (by simp))
        have hnil : g ++ bs ≠ [] := by
          rintro h
          simp [(List.append_eq_nil_iff.1 h).1] at hpos
        simp only [le, List.cons_append, List.nil_append] at hrep hf ⊢
        rw [deserializeLoop]
        simp only [if_neg hnil, hdg, hrep, Option.bind_eq_bind, Option.bind_some,
          List.drop_left]
        rw [if_neg (by omega), hds fuel _ _ (by simp at hf; omega)]
        simp [hne, add_assoc, add_comm, add_left_comm]

lemma has_filter (bSerialize : Bool) (replType : ReplType) (nodes : List ReplidNode) (r v : ℕ) :
    Idset.Has ⟨bSerialize, replType, nodes.filter fun n => n.rangeList ≠ []⟩ r v ↔
      ∃ n ∈ nodes, n.replid = r ∧ Covers n.rangeList v := by
  simp only [Idset.Has, List.mem_filter, decide_eq_true_eq]
  constructor
  · rintro ⟨n, ⟨hn, -⟩, hr, hc⟩
    exact ⟨n, hn, hr, hc⟩
  · rintro ⟨n, hn, hr, hc⟩
    exact ⟨n, ⟨hn, fun h0 => by simp [h0] at hc⟩, hr, hc⟩

/-- What every call keeps, fitting or not. -/
structure Reached (pset : Idset) : Prop where
  serialize : pset.bSerialize = true
  replid_lt : ∀ n ∈ pset.replList, n.replid < 65536

lemma mem_updateRepl {replid : ℕ} {f : List RangeNode → List RangeNode}
    {nodes : List ReplidNode} {n : ReplidNode} (h : n ∈ updateRepl replid f nodes) :
    n.replid = replid ∨ ∃ m ∈ nodes, n.replid = m.replid := by
  induction nodes with
  | nil => simp_all [updateRepl]
  | cons k ks ih =>
    rw [updateRepl] at h
    split_ifs at h with hk
    · rcases List.mem_cons.1 h with rfl | h
      · exact .inl hk
      · exact .inr ⟨n, by simp [h], rfl⟩
    · rcases List.mem_cons.1 h with rfl | h
      · exact .inr ⟨n, by simp, rfl⟩
      · rcases ih h with he | ⟨m, hm, he⟩
        · exact .inl he
        · exact .inr ⟨m, by simp [hm], he⟩

lemma Reached.update {pset : Idset} (h : Reached pset) {replid : ℕ} (hr : replid < 65536)
    (f : List RangeNode → List RangeNode) :
    Reached { pset with replList := updateRepl replid f pset.replList } := by
  refine ⟨h.serialize, fun n hn => ?_⟩
  rcases mem_updateRepl hn with rfl | ⟨m, hm, he⟩
  · exact hr
  · rw [he]
    exact h.replid_lt m hm

lemma Reached.append {pset : Idset} (h : Reached pset) {replid : ℕ} (hr : replid < 65536)
    (value : ℕ) : Reached (idsetAppendInternal pset replid value).2 := by
  rw [idsetAppendInternal, if_neg (by simp [h.serialize])]
  exact h.update hr _

lemma Reached.appendRange {pset : Idset} (h : Reached pset) {replid : ℕ} (hr : replid < 65536)
    (low high : ℕ) : Reached (idsetAppendRange pset replid low high).2 := by
  rw [idsetAppendRange, if_neg (by simp [h.serialize])]
  split_ifs
  · exact h
  · exact h.update hr _

lemma Reached.concatLoop {pset : Idset} (h : Reached pset) {calls : List (ℕ × RangeNode)}
    (hv : ∀ c ∈ calls, c.1 < 65536) : Reached (concatLoop pset calls).2 := by
  induction calls generalizing pset with
  | nil => exact h
  | cons c cs ih =>
    have hone : Reached (concatOne pset c).2 := by
      rw [concatOne]
      split_ifs
      · exact h.append (hv c (by simp)) _
      · exact h.appendRange (hv c (by simp)) _ _
    rw [Model.concatLoop]
    rcases hc : concatOne pset c with ⟨_ | _, mid⟩ <;> rw [hc] at hone
    · exact hone
    · exact ih hone fun d hd => hv d (by simp [hd])

lemma Reached.step {pset pset' : Idset} (h : Reached pset) {op : Op} (hv : op.Valid)
    (hok : Succeeds pset op pset') : Reached pset' := by
  have hpset' : (exec pset op).2 = pset' := by rw [hok]
  rw [← hpset']
  cases op with
  | append eid => exact h.append (ropUtilGetReplid_lt eid) _
  | appendRange replid low high => exact h.appendRange hv.1 low high
  | batchAppend replid pvalues =>
    simp only [exec, idsetBatchAppend]
    split_ifs
    · exact h
    · exact h
    · exact h
    · refine ⟨h.serialize, fun n hn => ?_⟩
      rcases List.mem_append.1 hn with hn | hn
      · exact h.replid_lt n hn
      · rw [List.mem_singleton.1 hn]
        exact hv.1
  | remove eid =>
    simp only [exec, idsetRemove]
    rw [if_neg (by simp [h.serialize])]
    refine ⟨h.serialize, fun n hn => ?_⟩
    have hmem := List.mem_map_of_mem (f := ReplidNode.replid) hn
    rw [map_removeRepl] at hmem
    obtain ⟨m, hm, he⟩ := List.mem_map.1 hmem
    rw [← he]
    exact h.replid_lt m hm
  | concatenate psetSrc =>
    simp only [exec, idsetConcatenate]
    split_ifs
    · exact h
    · exact h.concatLoop fun c hc => (hv c hc).1

lemma reached_init : Reached (idsetInit true .id) := ⟨rfl, by simp [idsetInit]⟩

/-- The binary of the set is read back into a fresh set, all of it, with the same pairs. -/
def RoundTrips (pset : Idset) (pbin : List UInt8) : Prop :=
  ∃ pset', idsetDeserialize (idsetInit false .id) pbin = some (true, pbin.length, pset') ∧
    ∀ replid value, Idset.Has pset' replid value ↔ Idset.Has pset replid value

lemma roundTrips_of_encodable {pset : Idset} (h : Reached pset)
    (he : ∀ n ∈ pset.replList, Encodable n.rangeList) :
    ∃ pbin, idsetSerializeReplid pset = some pbin ∧ RoundTrips pset pbin := by
  obtain ⟨bytes, hb, hd⟩ := deserialize_serializeNodes h.replid_lt he
  refine ⟨bytes, by rw [idsetSerializeReplid, if_neg (by simp [h.serialize]), hb],
    ⟨false, .id, pset.replList.filter fun n => n.rangeList ≠ []⟩, ?_, fun r v => ?_⟩
  · simp [idsetDeserialize, idsetInit, hd bytes.length 0 [] le_rfl]
  · exact has_filter ..

/-- **Round trip.** In every run from the empty set, a set whose range lists are encodable has a
binary, and that binary is read back as the same set. -/
theorem roundTrips_of_run (ops : List Op) {pset : Idset}
    (h : Run (fun _ op => op.Valid) Succeeds (idsetInit true .id) ops pset)
    (he : ∀ n ∈ pset.replList, Encodable n.rangeList) :
    ∃ pbin, idsetSerializeReplid pset = some pbin ∧ RoundTrips pset pbin :=
  roundTrips_of_encodable
    (h.invariant (I := Reached) (fun _ _ _ hI hv hst => hI.step hv hst) reached_init) he

theorem roundTrips_of_run_mixed :
    ∃ pbin, idsetSerializeReplid ⟨true, .id, [⟨5, [⟨9, 9⟩, ⟨300, 400⟩]⟩, ⟨7, [⟨2, 2⟩]⟩]⟩ =
      some pbin ∧ RoundTrips ⟨true, .id, [⟨5, [⟨9, 9⟩, ⟨300, 400⟩]⟩, ⟨7, [⟨2, 2⟩]⟩]⟩ pbin :=
  roundTrips_of_run [.append (ropUtilMakeEidEx 5 8), .append (ropUtilMakeEidEx 5 9),
      .appendRange 5 300 400, .remove (ropUtilMakeEidEx 5 8),
      .concatenate ⟨true, .id, [⟨7, [⟨2, 2⟩]⟩]⟩]
    (.cons (by decide) rfl (.cons (by decide) rfl (.cons (by decide) rfl
      (.cons (by decide) rfl (.cons (by decide) rfl (.nil _)))))) (by decide)

/-- A range appended below the others is last in its list: the prefix is then the one of
smaller values than some that stand between. -/
theorem not_roundTrips_of_run :
    ¬ ∀ (ops : List Op) (pset : Idset) (pbin : List UInt8),
      Run (fun _ op => op.Valid) Succeeds (idsetInit true .id) ops pset →
        idsetSerializeReplid pset = some pbin → RoundTrips pset pbin := by
  intro h
  obtain ⟨pset', hd, hhas⟩ := h
    [.append (ropUtilMakeEidEx 1 0x100), .append (ropUtilMakeEidEx 1 0x10000),
      .appendRange 1 1 5]
    ⟨true, .id, [⟨1, [⟨0x100, 0x100⟩, ⟨0x10000, 0x10000⟩, ⟨1, 5⟩]⟩]⟩
    [1, 0, 4, 0, 0, 0, 0, 2, 1, 0, 2, 0, 0, 1, 0, 0x52, 1, 5, 0x50, 0x50, 0]
    (.cons (by decide) rfl (.cons (by decide) rfl (.cons (by decide) rfl (.nil _)))) rfl
  have hread : idsetDeserialize (idsetInit false .id)
      [1, 0, 4, 0, 0, 0, 0, 2, 1, 0, 2, 0, 0, 1, 0, 0x52, 1, 5, 0x50, 0x50, 0] =
      some (true, 21, ⟨false, .id, [⟨1, [⟨0x100, 0x100⟩, ⟨0, 0⟩, ⟨1, 5⟩]⟩]⟩) := by decide
  rw [hread] at hd
  cases hd
  have hlost := (hhas 1 0x10000).2 (by simp [Idset.Has, Range.Has])
  simp [Idset.Has, Range.Has] at hlost

/-- In a list in order every range lies between the low end of the first and the high end of
the last. -/
lemma low_le_last {r : RangeNode} {l : List RangeNode} (h : Ascending (r :: l)) :
    ∀ q ∈ r :: l, r.low ≤ q.low ∧ q.high ≤ ((r :: l).getLast (by simp)).high := by
  induction l generalizing r with
  | nil => simp
  | cons m ms ih =>
    obtain ⟨hle, hnext, hrest⟩ := (ascending_cons _ _).1 h
    have hm := hnext m (by simp)
    have hlast := ih hrest
    rw [List.getLast_cons (by simp)]
    rintro q (_ | ⟨_, hq⟩)
    · have := hlast m (by simp)
      have := hrest.le (List.mem_cons_self (a := m) (l := ms))
      omega
    · have := hlast q hq
      omega

/-- A list in order is encodable. -/
lemma encodable_of_ordered {l : List RangeNode} (h : Ordered l) : Encodable l := by
  rcases l with _ | ⟨r, _ | ⟨q, qs⟩⟩
  · trivial
  · obtain ⟨-, hle, hhi⟩ := h.head
    exact ⟨by omega, hhi⟩
  · have hbetween := low_le_last h.asc
    have hmem := List.getLast_mem (l := r :: q :: qs) (by simp)
    obtain ⟨-, hnext, -⟩ := (ascending_cons _ _).1 h.asc
    obtain ⟨-, hrle, -⟩ := h.head
    simp only [Encodable]
    generalize hlast : (r :: q :: qs).getLast (by simp) = last at *
    have hlastmem : last ∈ q :: qs := by
      rw [← hlast, List.getLast_cons (by simp)]
      exact List.getLast_mem _
    have hlastle := h.tail.asc.le hlastmem
    have hlasthi := (h.bounds last.high ⟨last, hmem, hlastle, le_rfl⟩).2
    have hlt := hnext last hlastmem
    have hlen : stackLengthOf r.low last.high < 6 := by
      refine commonLength_lt rfl fun he => ?_
      have := valueToGc_inj (by omega) hlasthi he
      omega
    have hcommon := take_commonLength (ropUtilValueToGc r.low) (ropUtilValueToGc last.high)
    refine ⟨by omega, fun g hg => ?_⟩
    obtain ⟨h1, h2⟩ := hbetween g hg
    have h3 := h.asc.le hg
    have htake : ∀ v, r.low ≤ v → v ≤ last.high →
        (ropUtilValueToGc v).take (stackLengthOf r.low last.high) = sharedPrefix r last := by
      intro v hrv hvl
      rw [sharedPrefix]
      rw [← stackLengthOf] at hcommon
      exact valueToGc_take_between hlen.le hrv hvl hlasthi hcommon
    exact ⟨by omega, by omega, htake _ h1 (by omega), htake _ (by omega) h2⟩

/-- Every set built by calls that fit is read back from its binary. -/
theorem roundTrips_of_fitting_run {ops : List Op} {pset : Idset}
    (h : Run (fun s op => op.Valid ∧ op.Fits s) Succeeds (idsetInit true .id) ops pset) :
    ∃ pbin, idsetSerializeReplid pset = some pbin ∧ RoundTrips pset pbin := by
  have hR : Reached pset :=
    h.invariant (I := Reached) (fun _ _ _ hI hv hst => hI.step hv.1 hst) reached_init
  have hI := inv_of_run h
  refine roundTrips_of_encodable hR fun n hn => ?_
  rw [← rangeListOf_of_mem hI.nodup hn]
  exact encodable_of_ordered (hI.ordered _)

end SteepSystem.Idsets.RoundTrip
