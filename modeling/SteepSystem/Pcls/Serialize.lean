import SteepSystem.Pcls.Spec

/-!
`pcl_serialize` and what `pcl_deserialize` makes of its result. The check before an XID leaves
out its size byte, and the reader takes the end of the binary for an error unless an XID ends
there.
-/

namespace SteepSystem.Pcls.Serialize

open SteepSystem.Lib.Bytes SteepSystem.Pcls.Model SteepSystem.Pcls.Spec

/-- `sizeof(buff)` -/
def sizeofBuff : ℕ := 0x8000

/-- The bytes that an XID is written in. -/
def pclPushSizedXid (pxid : SizedXid) : List UInt8 :=
  UInt8.ofNat pxid.size :: (pxid.guid.bytes ++ pxid.localId)

/-- The loop of `pcl_serialize`: whether it gets through, and all that is written to `buff`. -/
def serializeLoop : List UInt8 → PclList → Bool × List UInt8
  | buff, [] => (true, buff)
  | buff, pxid :: ppcl =>
    if pxid.size < 17 ∨ 24 < pxid.size ∨ sizeofBuff < buff.length + pxid.size then (false, buff)
    else serializeLoop (buff ++ pclPushSizedXid pxid) ppcl

def pclSerialize (ppcl : PclList) : Option (List UInt8) :=
  match serializeLoop [] ppcl with
  | (false, _) => none
  | (true, buff) => some buff

/-- A list made by `pcl_append`, the only call that adds to one. -/
inductive Made : PclList → Prop
  | init : Made []
  | append {ppcl : PclList} (pxid : SizedXid) : Made ppcl → Made (pclAppend ppcl pxid).2

/-- The sizes that the reader takes. -/
def Legal (ppcl : PclList) : Prop := ∀ x ∈ ppcl, 17 ≤ x.size ∧ x.size ≤ 24

/-- The serialized form. -/
def form (ppcl : PclList) : List UInt8 := ppcl.flatMap pclPushSizedXid

/-- A list of legal sizes whose form fits the buffer is read back from it, and no list has more
written than the buffer holds. -/
structure Serializes (ppcl : PclList) : Prop where
  undone : Legal ppcl → (form ppcl).length ≤ sizeofBuff →
    ∃ pbin, pclSerialize ppcl = some pbin ∧
      ∃ fuel, pclDeserialize fuel [] pbin = some (true, ppcl)
  within : (serializeLoop [] ppcl).2.length ≤ sizeofBuff

variable {ppcl : PclList} {buff : List UInt8}

@[simp] lemma form_nil : form [] = [] := rfl

@[simp] lemma form_cons (x : SizedXid) (l : PclList) :
    form (x :: l) = pclPushSizedXid x ++ form l := rfl

lemma form_append (l l' : PclList) : form (l ++ l') = form l ++ form l' :=
  List.flatMap_append

@[simp] lemma length_pclPushSizedXid (x : SizedXid) :
    (pclPushSizedXid x).length = x.size + 1 := by
  simp [pclPushSizedXid, SizedXid.size, x.guid.length_eq]

/-- What may be written at all is written, up to a byte behind the buffer. -/
lemma serializeLoop_append {q : PclList} (hq : Legal q)
    (hlen : buff.length + (form q).length ≤ sizeofBuff + 1) (r : PclList) :
    serializeLoop buff (q ++ r) = serializeLoop (buff ++ form q) r := by
  induction q generalizing buff with
  | nil => simp
  | cons x q ih =>
    have hx := hq x (by simp)
    rw [form_cons, List.length_append, length_pclPushSizedXid] at hlen
    rw [List.cons_append, serializeLoop, if_neg (by omega),
      ih (fun y hy => hq y (by simp [hy]))
        (by rw [List.length_append, length_pclPushSizedXid]; omega),
      form_cons, List.append_assoc]

lemma serializeLoop_first (hb : buff.length ≤ sizeofBuff + 1) :
    ∃ q, q <+: ppcl ∧ Legal q ∧ (serializeLoop buff ppcl).2 = buff ++ form q ∧
      (serializeLoop buff ppcl).2.length ≤ sizeofBuff + 1 := by
  induction ppcl generalizing buff with
  | nil => exact ⟨[], List.prefix_rfl, by simp [Legal], by simp [serializeLoop], hb⟩
  | cons x l ih =>
    rw [serializeLoop]
    by_cases hx : x.size < 17 ∨ 24 < x.size ∨ sizeofBuff < buff.length + x.size
    · rw [if_pos hx]
      exact ⟨[], List.nil_prefix, by simp [Legal], by simp, hb⟩
    · rw [if_neg hx]
      obtain ⟨q, hq, hlegal, heq, hlen⟩ := @ih (buff ++ pclPushSizedXid x)
        (by rw [List.length_append, length_pclPushSizedXid]; omega)
      refine ⟨x :: q, List.cons_prefix_cons.mpr ⟨rfl, hq⟩, ?_, ?_, hlen⟩
      · intro y hy
        rcases List.mem_cons.mp hy with rfl | hy
        · omega
        · exact hlegal y hy
      · rw [heq, form_cons, List.append_assoc]

/-- The buffer is left exactly when one byte too many is written. -/
lemma within_iff : (serializeLoop [] ppcl).2.length ≤ sizeofBuff ↔
    ∀ q, q <+: ppcl → Legal q → (form q).length ≠ sizeofBuff + 1 := by
  constructor
  · rintro h q ⟨r, rfl⟩ hq hlen
    rw [serializeLoop_append hq (by simp [hlen])] at h
    obtain ⟨q', -, -, heq, -⟩ :=
      @serializeLoop_first r ([] ++ form q) (by simp [hlen])
    rw [heq, List.length_append, List.nil_append] at h
    omega
  · intro h
    obtain ⟨q, hq, hlegal, heq, hlen⟩ :=
      @serializeLoop_first ppcl [] (Nat.zero_le _)
    have hne := h q hq hlegal
    rw [heq, List.nil_append] at hlen ⊢
    omega

/-- The call brings in no GUID but the one it is given. -/
lemma mem_pclAppend {l : PclList} {x y : SizedXid} (hy : y ∈ (pclAppend l x).2) :
    y.guid = x.guid ∨ ∃ z ∈ l, z.guid = y.guid := by
  induction l with
  | nil => exact .inl (by rw [List.mem_singleton.mp hy])
  | cons z l ih =>
    rw [pclAppend] at hy
    dsimp only at hy
    by_cases hlt : memcmp z.guid.bytes x.guid.bytes < 0
    · rw [if_pos hlt] at hy
      rcases List.mem_cons.mp hy with rfl | hy
      · exact .inr ⟨y, by simp, rfl⟩
      · rcases ih hy with he | ⟨w, hw, he⟩
        · exact .inl he
        · exact .inr ⟨w, by simp [hw], he⟩
    · rw [if_neg hlt] at hy
      by_cases heq : memcmp z.guid.bytes x.guid.bytes = 0
      · rw [if_pos heq] at hy
        split_ifs at hy <;> rcases List.mem_cons.mp hy with rfl | hy
        all_goals first
          | exact .inr ⟨z, by simp, rfl⟩
          | exact .inr ⟨y, by simp [hy], rfl⟩
      · rw [if_neg heq] at hy
        rcases List.mem_cons.mp hy with rfl | hy
        · exact .inl rfl
        · exact .inr ⟨y, hy, rfl⟩

lemma pclAppend_sorted {l : PclList} (h : l.Pairwise fun x y => x.guid < y.guid) (x : SizedXid) :
    (pclAppend l x).2.Pairwise fun x y => x.guid < y.guid := by
  induction l with
  | nil => exact List.pairwise_singleton _ _
  | cons z l ih =>
    obtain ⟨hz, hl⟩ := List.pairwise_cons.mp h
    rw [pclAppend]
    dsimp only
    by_cases hlt : memcmp z.guid.bytes x.guid.bytes < 0
    · rw [if_pos hlt]
      refine List.pairwise_cons.mpr ⟨fun y hy => ?_, ih hl⟩
      rcases mem_pclAppend hy with he | ⟨w, hw, he⟩
      · rw [he]
        exact (memcmp_lt _ _).mp hlt
      · rw [← he]
        exact hz w hw
    · rw [if_neg hlt]
      by_cases heq : memcmp z.guid.bytes x.guid.bytes = 0
      · rw [if_pos heq]
        split_ifs <;> exact List.pairwise_cons.mpr ⟨hz, hl⟩
      · rw [if_neg heq]
        have hxz : x.guid < z.guid := by
          refine lt_of_le_of_ne (not_lt.mp fun h => hlt ((memcmp_lt _ _).mpr h)) fun h => ?_
          exact heq ((memcmp_eq _ _).mpr h.symm)
        refine List.pairwise_cons.mpr ⟨fun y hy => ?_, h⟩
        rcases List.mem_cons.mp hy with rfl | hy
        · exact hxz
        · exact hxz.trans (hz y hy)

/-- The XIDs of a list are in the order of their GUIDs. -/
lemma Made.sorted (h : Made ppcl) : ppcl.Pairwise fun x y => x.guid < y.guid := by
  induction h with
  | init => exact List.Pairwise.nil
  | append x _ ih => exact pclAppend_sorted ih x

lemma pclAppend_last {l : PclList} {x : SizedXid} (h : ∀ y ∈ l, y.guid < x.guid) :
    pclAppend l x = (true, l ++ [x]) := by
  induction l with
  | nil => rfl
  | cons y l ih =>
    have hlt := (memcmp_lt _ _).mpr (h y (by simp))
    rw [pclAppend]
    dsimp only
    rw [if_pos hlt, ih fun z hz => h z (by simp [hz])]
    rfl

/-- An XID that was written is read at its place. -/
lemma pull_push {x : SizedXid} (h17 : 17 ≤ x.size) (h24 : x.size ≤ 24) (pre post : List UInt8)
    (hpre : pre.length + 1 < 65536) :
    pclPullSizedXid (pre ++ (pclPushSizedXid x ++ post)) pre.length = some x := by
  have hsize : (UInt8.ofNat x.size).toNat = x.size := by
    rw [UInt8.toNat_ofNat']
    omega
  have hguid := x.guid.length_eq
  have hid : x.localId.length = x.size - 16 := by
    rw [SizedXid.size]
    omega
  have hget : (pre ++ (pclPushSizedXid x ++ post)).getD pre.length 0 = UInt8.ofNat x.size := by
    simp [List.getD, pclPushSizedXid]
  have hdrop : (pre ++ (pclPushSizedXid x ++ post)).drop (pre.length + 1) =
      x.guid.bytes ++ (x.localId ++ post) := by
    rw [pclPushSizedXid, ← List.drop_drop, List.drop_left, List.cons_append, List.drop_one,
      List.tail_cons, List.append_assoc]
  have htake : (x.guid.bytes ++ (x.localId ++ post)).take 16 = x.guid.bytes :=
    List.take_left' hguid
  have hrest : ((x.guid.bytes ++ (x.localId ++ post)).drop 16).take (x.size - 16) = x.localId := by
    rw [List.drop_left' hguid, List.take_left' hid]
  rw [pclPullSizedXid]
  simp only [List.length_append, length_pclPushSizedXid, hget, hsize, Nat.mod_eq_of_lt hpre, hdrop,
    htake, hrest, hguid]
  rw [if_neg (by omega), if_neg (by omega), dif_pos trivial]

/-- From the place of an XID on, the rest of the list is read. -/
lemma deserializeLoop_form {q r : PclList} (hr : r ≠ []) (hlegal : Legal r)
    (hsorted : (q ++ r).Pairwise fun x y => x.guid < y.guid)
    (hlen : (form (q ++ r)).length ≤ sizeofBuff) :
    deserializeLoop (form (q ++ r)) r.length (form q).length q = some (true, q ++ r) := by
  induction r generalizing q with
  | nil => exact absurd rfl hr
  | cons x r ih =>
    have hx := hlegal x (by simp)
    have hsplit : q ++ x :: r = (q ++ [x]) ++ r := by simp
    have hnext : (form (q ++ [x])).length = (form q).length + (x.size + 1) := by
      simp [form_append]
    have hwhole : (form (q ++ x :: r)).length = (form (q ++ [x])).length + (form r).length := by
      rw [hsplit, form_append, List.length_append]
    have hbuff : sizeofBuff = 32768 := rfl
    have hpull := pull_push hx.1 hx.2 (form q) (form r) (by omega)
    rw [← form_cons, ← form_append] at hpull
    have happ := pclAppend_last fun y hy => (List.pairwise_append.mp hsorted).2.2 y hy x (by simp)
    rw [List.length_cons, deserializeLoop, hpull]
    simp only [happ]
    rw [Nat.mod_eq_of_lt (by omega), hwhole, ← hnext]
    by_cases hnil : r = []
    · subst hnil
      rw [if_pos (by simp)]
    · have hpos : 0 < (form r).length := by
        obtain ⟨y, l, rfl⟩ := List.exists_cons_of_ne_nil hnil
        simp
      rw [if_neg (by omega), hsplit]
      rw [hsplit] at hsorted hlen
      exact ih hnil (fun y hy => hlegal y (by simp [hy])) hsorted hlen

lemma pclDeserialize_nil (fuel : ℕ) : pclDeserialize fuel [] [] ≠ some (true, []) := by
  cases fuel with
  | zero => exact fun h => by cases h
  | succ _ => exact fun h => by cases h

lemma undone_of_ne_nil (h : Made ppcl) (hne : ppcl ≠ []) (hlegal : Legal ppcl)
    (hlen : (form ppcl).length ≤ sizeofBuff) :
    ∃ pbin, pclSerialize ppcl = some pbin ∧
      ∃ fuel, pclDeserialize fuel [] pbin = some (true, ppcl) := by
  have hloop := @serializeLoop_append [] _ hlegal
    (by rw [List.length_nil]; omega) []
  rw [List.append_nil, List.nil_append] at hloop
  refine ⟨form ppcl, ?_, ppcl.length, ?_⟩
  · rw [pclSerialize, hloop]
    rfl
  · exact deserializeLoop_form (q := []) hne hlegal h.sorted hlen

/-- **Round trip and buffer.** For a list made by the calls both hold if and only if it is not
empty and no front part of it takes one byte more than the buffer holds. -/
theorem serializes_iff (h : Made ppcl) :
    Serializes ppcl ↔
      ppcl ≠ [] ∧ ∀ q, q <+: ppcl → Legal q → (form q).length ≠ sizeofBuff + 1 := by
  constructor
  · rintro ⟨hundone, hwithin⟩
    refine ⟨?_, within_iff.mp hwithin⟩
    rintro rfl
    obtain ⟨pbin, hser, fuel, hde⟩ := hundone (by simp [Legal]) (Nat.zero_le _)
    cases hser
    exact pclDeserialize_nil fuel hde
  · rintro ⟨hne, hfit⟩
    exact ⟨undone_of_ne_nil h hne, within_iff.mpr hfit⟩

theorem serializes_iff_one :
    Serializes [⟨⟨List.replicate 16 1, rfl⟩, [2]⟩] ↔
      [(⟨⟨List.replicate 16 1, rfl⟩, [2]⟩ : SizedXid)] ≠ [] ∧
        ∀ q, q <+: [(⟨⟨List.replicate 16 1, rfl⟩, [2]⟩ : SizedXid)] → Legal q →
          (form q).length ≠ sizeofBuff + 1 :=
  serializes_iff (Made.append ⟨⟨List.replicate 16 1, rfl⟩, [2]⟩ Made.init)

/-- A list in the order of its GUIDs is made by appending its XIDs. -/
lemma made_of_sorted {l : PclList} (h : l.Pairwise fun x y => x.guid < y.guid) : Made l := by
  induction l using List.reverseRecOn with
  | nil => exact .init
  | append_singleton l x ih =>
    obtain ⟨hl, -, hx⟩ := List.pairwise_append.mp h
    have happ := pclAppend_last fun y hy => hx y hy x (by simp)
    have hmade := (ih hl).append x
    rwa [happ] at hmade

def numbered (i : ℕ) : Guid :=
  ⟨List.replicate 14 0 ++ [UInt8.ofNat (i / 256), UInt8.ofNat (i % 256)], rfl⟩

/-- 1310 XIDs of 24 bytes and one of 18 take 0x8001 bytes. -/
def oneTooMany : PclList :=
  (List.range 1310).map (fun i => ⟨numbered i, List.replicate 8 0⟩) ++
    [⟨numbered 1310, List.replicate 2 0⟩]

lemma numbered_lt {i j : ℕ} (hij : i < j) (hj : j < 65536) : numbered i < numbered j := by
  have hval : ∀ k < 65536, ofBE (numbered k).bytes = k := by
    intro k hk
    have hlow : (UInt8.ofNat (k % 256)).toNat = k % 256 := by
      rw [UInt8.toNat_ofNat']
      omega
    have hhigh : (UInt8.ofNat (k / 256)).toNat = k / 256 := by
      rw [UInt8.toNat_ofNat']
      omega
    simp [numbered, ofBE, ofLE, hlow, hhigh]
    omega
  rw [Guid.lt_iff, hval i (by omega), hval j hj]
  exact hij

lemma made_oneTooMany : Made oneTooMany := by
  refine made_of_sorted (List.pairwise_append.mpr ⟨?_, List.pairwise_singleton _ _, ?_⟩)
  · rw [List.pairwise_map]
    refine List.Pairwise.imp_of_mem ?_ List.pairwise_lt_range
    intro i j _ hj hij
    exact numbered_lt hij (by have := List.mem_range.mp hj; omega)
  · intro x hx y hy
    obtain ⟨i, hi, rfl⟩ := List.mem_map.mp hx
    rw [List.mem_singleton.mp hy]
    exact numbered_lt (List.mem_range.mp hi) (by norm_num)

lemma length_form_oneTooMany : (form oneTooMany).length = sizeofBuff + 1 := by
  have hall : ∀ l : List ℕ,
      (form (l.map fun i => ⟨numbered i, List.replicate 8 0⟩)).length = l.length * 25 := by
    intro l
    induction l with
    | nil => rfl
    | cons i l ih =>
      rw [List.map_cons, form_cons, List.length_append, ih, length_pclPushSizedXid,
        List.length_cons]
      simp only [SizedXid.size, List.length_replicate]
      omega
  rw [oneTooMany, form_append, List.length_append, hall, List.length_range, form_cons,
    List.length_append, length_pclPushSizedXid]
  rfl

/-- The form of the empty list is not read back, and a list that is one byte too long is written
behind the end of the buffer. -/
theorem not_serializes :
    (Made [] ∧ ¬ Serializes []) ∧
      (Made oneTooMany ∧ oneTooMany ≠ [] ∧ ¬ Serializes oneTooMany) := by
  refine ⟨⟨.init, fun h => ?_⟩, made_oneTooMany, by simp [oneTooMany], fun h => ?_⟩
  · obtain ⟨pbin, hser, fuel, hde⟩ := h.undone (by simp [Legal]) (Nat.zero_le _)
    cases hser
    exact pclDeserialize_nil fuel hde
  · refine within_iff.mp h.within oneTooMany List.prefix_rfl ?_ length_form_oneTooMany
    intro x hx
    rcases List.mem_append.mp hx with hx | hx
    · obtain ⟨i, -, rfl⟩ := List.mem_map.mp hx
      simp [SizedXid.size]
    · rw [List.mem_singleton.mp hx]
      simp [SizedXid.size]

end SteepSystem.Pcls.Serialize
