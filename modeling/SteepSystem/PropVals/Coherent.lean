import SteepSystem.PropVals.Model

/-!
The relational operators on property values are those of one comparison, for the types that have
an order. What is equal is the same value but for the case of letters.
-/

namespace SteepSystem.PropVals

open SteepSystem.Lib SteepSystem.Lib.CStrings
open SteepSystem.Pcls.Model (memcmp)
open SteepSystem.Pcls.Spec (memcmp_spec)

/-! ### Comparisons -/

lemma memcmp_swap (as bs : List UInt8) : memcmp bs as = -memcmp as bs := by
  induction as generalizing bs with
  | nil => cases bs <;> rfl
  | cons a as ih =>
    cases bs with
    | nil => rfl
    | cons b bs =>
      rw [memcmp, memcmp]
      by_cases hab : a = b
      · rw [if_pos hab, if_pos hab.symm, ih]
      · rw [if_neg hab, if_neg (Ne.symm hab)]
        ring

lemma memcmp_eq_zero {as bs : List UInt8} (h : as.length = bs.length) :
    memcmp as bs = 0 ↔ as = bs := (memcmp_spec h).2

lemma strcasecmp_swap (s t : List UInt8) : strcasecmp t s = -strcasecmp s t := by
  induction s generalizing t with
  | nil => cases t <;> simp [strcasecmp]
  | cons a as ih =>
    cases t with
    | nil => simp [strcasecmp]
    | cons b bs =>
      rw [strcasecmp, strcasecmp]
      by_cases hab : tolower a = tolower b
      · rw [if_pos hab, if_pos hab.symm, ih]
      · rw [if_neg hab, if_neg (Ne.symm hab)]
        ring

lemma tolower_ne_zero {c : UInt8} (h : c ≠ 0) : tolower c ≠ 0 := by
  unfold tolower
  split
  · rename_i hupper
    rw [Bool.and_eq_true, decide_eq_true_eq, decide_eq_true_eq, UInt8.le_iff_toNat_le,
      UInt8.le_iff_toNat_le] at hupper
    intro hzero
    have hsum := congrArg UInt8.toNat hzero
    rw [UInt8.toNat_add] at hsum
    have h65 : (65 : UInt8).toNat = 65 := rfl
    have h90 : (90 : UInt8).toNat = 90 := rfl
    have h32 : (32 : UInt8).toNat = 32 := rfl
    have h0 : (0 : UInt8).toNat = 0 := rfl
    omega
  · exact h

lemma strcasecmp_eq_zero {s t : List UInt8} (hs : 0 ∉ s) (ht : 0 ∉ t) :
    strcasecmp s t = 0 ↔ s.map tolower = t.map tolower := by
  have hpos : ∀ {c : UInt8} {l : List UInt8}, 0 ∉ c :: l → (tolower c).toNat ≠ 0 := by
    intro c l hmem hzero
    refine tolower_ne_zero (c := c) (fun hc => hmem (hc ▸ List.mem_cons_self)) ?_
    exact UInt8.toNat_inj.mp hzero
  induction s generalizing t with
  | nil =>
    cases t with
    | nil => simp [strcasecmp]
    | cons b bs =>
      have := hpos ht
      simp [strcasecmp, this]
  | cons a as ih =>
    cases t with
    | nil =>
      have := hpos hs
      simp [strcasecmp, this]
    | cons b bs =>
      rw [strcasecmp, List.map_cons, List.map_cons, List.cons.injEq]
      by_cases hab : tolower a = tolower b
      · have hrest := @ih bs (fun h => hs (List.mem_cons_of_mem _ h))
          (fun h => ht (List.mem_cons_of_mem _ h))
        rw [if_pos hab]
        exact hrest.trans (and_iff_right hab).symm
      · have hne : (tolower a).toNat ≠ (tolower b).toNat := fun h => hab (UInt8.toNat_inj.mp h)
        rw [if_neg hab]
        exact iff_of_false (by omega) fun h => hab h.1

/-- One field of a comparison after the other: the first one that differs decides. -/
lemma field_swap {x y : ℕ} {p q : ℤ} (h : q = -p) :
    (if y ≠ x then if x < y then (1 : ℤ) else -1 else q) =
      -(if x ≠ y then if y < x then (1 : ℤ) else -1 else p) := by
  rcases lt_trichotomy x y with hlt | rfl | hgt
  · rw [if_pos hlt.ne', if_pos hlt, if_pos hlt.ne, if_neg hlt.not_gt]
    norm_num
  · simpa using h
  · rw [if_pos hgt.ne, if_neg hgt.not_gt, if_pos hgt.ne', if_pos hgt]

lemma field_eq_zero {x y : ℕ} {p : ℤ} {P : Prop} (h : p = 0 ↔ P) :
    (if x ≠ y then if y < x then (1 : ℤ) else -1 else p) = 0 ↔ x = y ∧ P := by
  by_cases hxy : x = y
  · simp [hxy, h]
  · rw [if_pos hxy]
    refine iff_of_false ?_ fun hp => hxy hp.1
    split
    · norm_num
    · norm_num

lemma guidCompare_eq (u1 u2 : Guid) : guidCompare u1 u2 =
    if u1.timeLow.toNat ≠ u2.timeLow.toNat then
      if u2.timeLow.toNat < u1.timeLow.toNat then 1 else -1
    else if u1.timeMid.toNat ≠ u2.timeMid.toNat then
      if u2.timeMid.toNat < u1.timeMid.toNat then 1 else -1
    else if u1.timeHiAndVersion.toNat ≠ u2.timeHiAndVersion.toNat then
      if u2.timeHiAndVersion.toNat < u1.timeHiAndVersion.toNat then 1 else -1
    else if u1.clockSeq0.toNat ≠ u2.clockSeq0.toNat then
      if u2.clockSeq0.toNat < u1.clockSeq0.toNat then 1 else -1
    else if u1.clockSeq1.toNat ≠ u2.clockSeq1.toNat then
      if u2.clockSeq1.toNat < u1.clockSeq1.toNat then 1 else -1
    else memcmp u1.node u2.node := by
  simp only [guidCompare, ne_eq, UInt32.toNat_inj, UInt16.toNat_inj, UInt8.toNat_inj,
    UInt32.lt_iff_toNat_lt, UInt16.lt_iff_toNat_lt, UInt8.lt_iff_toNat_lt]

lemma guidCompare_swap (u1 u2 : Guid) : guidCompare u2 u1 = -guidCompare u1 u2 := by
  rw [guidCompare_eq, guidCompare_eq]
  exact field_swap (field_swap (field_swap (field_swap (field_swap (memcmp_swap _ _)))))

lemma guidCompare_eq_zero (u1 u2 : Guid) : guidCompare u1 u2 = 0 ↔ u1 = u2 := by
  have hnode := memcmp_eq_zero (u1.length_node.trans u2.length_node.symm)
  rw [guidCompare_eq, field_eq_zero (field_eq_zero (field_eq_zero (field_eq_zero
    (field_eq_zero hnode)))), UInt32.toNat_inj, UInt16.toNat_inj, UInt16.toNat_inj,
    UInt8.toNat_inj, UInt8.toNat_inj]
  cases u1
  cases u2
  simp

/-! ### Binaries -/

lemma memcmpShorter_swap (a b : Binary) : memcmpShorter b a = -memcmpShorter a b := by
  unfold memcmpShorter
  rcases lt_trichotomy a.cb b.cb with hlt | heq | hgt
  · rw [if_pos hlt, if_neg hlt.not_gt, memcmp_swap]
  · rw [if_neg heq.not_lt, if_neg heq.not_gt, heq, memcmp_swap]
  · rw [if_neg hgt.not_gt, if_pos hgt, memcmp_swap]

/-- No bytes of the shorter one differ. -/
lemma memcmpShorter_eq_zero (a b : Binary) :
    memcmpShorter a b = 0 ↔ a.bytes <+: b.bytes ∨ b.bytes <+: a.bytes := by
  have hcb : ∀ c : Binary, c.bytes.length = c.cb := fun _ => rfl
  unfold memcmpShorter
  by_cases hlt : b.cb < a.cb
  · rw [if_pos hlt, memcmp_eq_zero (by simp [hcb]; omega), List.take_of_length_le (hcb b).le]
    constructor
    · intro h
      exact .inr (h ▸ List.take_prefix _ _)
    · rintro (h | h)
      · exact absurd h.length_le (by rw [hcb, hcb]; omega)
      · rw [List.prefix_iff_eq_take.mp h, hcb]
  · rw [if_neg hlt, memcmp_eq_zero (by simp [hcb]; omega), List.take_of_length_le (hcb a).le]
    constructor
    · intro h
      exact .inl (h ▸ List.take_prefix _ _)
    · rintro (h | h)
      · exact List.prefix_iff_eq_take.mp h
      · have hlen : b.bytes.length = a.bytes.length := le_antisymm h.length_le (not_lt.mp hlt)
        rw [h.eq_of_length hlen, List.take_of_length_le (hcb a).le]

/-! ### Coherence -/

def PropType.Ordered : PropType → Prop
  | .svreid | .shortArray | .longArray | .longlongArray | .stringArray | .wstringArray
  | .binaryArray => False
  | _ => True

/-- The same string but for the case of letters. -/
def SameStr (a b : Str) : Prop := a.chars.map tolower = b.chars.map tolower

def SameBinary (a b : Binary) : Prop := a.bytes = b.bytes

def SameSvreid (a b : Svreid) : Prop :=
  match a.pbin, b.pbin with
  | none, none =>
    a.folderId = b.folderId ∧ a.messageId = b.messageId ∧ a.instanceNum = b.instanceNum
  | some p, some q => SameBinary p q
  | _, _ => False

/-- Equal values. -/
def PropType.Same : (t : PropType) → t.Val → t.Val → Prop
  | .string, a, b | .wstring, a, b => SameStr a b
  | .binary, a, b => SameBinary a b
  | .svreid, a, b => SameSvreid a b
  | .stringArray, a, b | .wstringArray, a, b => List.Forall₂ SameStr a b
  | .binaryArray, a, b => List.Forall₂ SameBinary a b
  | .short, a, b | .long, a, b | .error, a, b | .byte, a, b | .currency, a, b | .longlong, a, b
  | .filetime, a, b | .guid, a, b | .shortArray, a, b | .longArray, a, b
  | .longlongArray, a, b => a = b

/-- Not two short numbers the first of which is the greater one. -/
def PropType.LeClear : (t : PropType) → t.Val → t.Val → Prop
  | .short, a, b => UInt16.toNat a ≤ UInt16.toNat b
  | _, _, _ => True

/-- Not two strings of bytes of which one continues the other, if both have bytes. -/
def PropType.OrderClear : (t : PropType) → t.Val → t.Val → Prop
  | .binary, a, b => Binary.bytes a = Binary.bytes b ∨ Binary.bytes a = [] ∨ Binary.bytes b = [] ∨
      ¬ Binary.bytes a <+: Binary.bytes b ∧ ¬ Binary.bytes b <+: Binary.bytes a
  | _, _, _ => True

/-- Not two identifiers of which some numbers are equal, but not all. -/
def PropType.NeClear : (t : PropType) → t.Val → t.Val → Prop
  | .svreid, a, b => Svreid.pbin a = none → Svreid.pbin b = none → SameSvreid a b ∨
      Svreid.folderId a ≠ Svreid.folderId b ∧ Svreid.messageId a ≠ Svreid.messageId b ∧
        Svreid.instanceNum a ≠ Svreid.instanceNum b
  | _, _, _ => True

/-- What the operators do for two values of a type. -/
structure CoherentFor (t : PropType) (a b : t.Val) : Prop where
  eq : propvalCompareRelop .eq t a b = true ↔ t.Same a b
  swap : propvalCompareRelop .gt t a b = propvalCompareRelop .lt t b a
  ne : t.NeClear a b → propvalCompareRelop .ne t a b = !propvalCompareRelop .eq t a b
  le : t.Ordered → t.OrderClear a b → t.LeClear a b →
    propvalCompareRelop .le t a b =
      (propvalCompareRelop .lt t a b || propvalCompareRelop .eq t a b)
  ge : t.Ordered → t.OrderClear a b →
    propvalCompareRelop .ge t a b =
      (propvalCompareRelop .gt t a b || propvalCompareRelop .eq t a b)
  one : t.Ordered → t.OrderClear a b →
    OneOf (propvalCompareRelop .lt t a b) (propvalCompareRelop .eq t a b)
      (propvalCompareRelop .gt t a b)
  none : ¬ t.Ordered → ∀ relop ∈ [Relop.lt, .le, .gt, .ge], propvalCompareRelop relop t a b = false

/-- A type whose operators are those of one comparison. -/
lemma CoherentFor.of_coherent {t : PropType} {a b : t.Val} (hordered : t.Ordered)
    (h : Coherent (fun op a b => propvalCompareRelop op t a b) a b)
    (heq : propvalCompareRelop .eq t a b = true ↔ t.Same a b) : CoherentFor t a b where
  eq := heq
  swap := h.swap
  ne _ := h.ne
  le _ _ _ := h.le
  ge _ _ := h.ge
  one _ _ := h.one
  none hnot := absurd hordered hnot

/-- A type whose values are only told apart. -/
lemma CoherentFor.of_differ {t : PropType} {a b : t.Val} (hordered : ¬ t.Ordered)
    (heq : propvalCompareRelop .eq t a b = true ↔ t.Same a b)
    (hne : t.NeClear a b → propvalCompareRelop .ne t a b = !propvalCompareRelop .eq t a b)
    (hnone : ∀ relop ∈ [Relop.lt, .le, .gt, .ge], ∀ x y : t.Val,
      propvalCompareRelop relop t x y = false) : CoherentFor t a b where
  eq := heq
  swap := by rw [hnone .gt (by simp), hnone .lt (by simp)]
  ne := hne
  le h := absurd h hordered
  ge h := absurd h hordered
  one h := absurd h hordered
  none _ relop hmem := hnone relop hmem a b

lemma compareArray_ne {α : Type} (differ : List α → List α → Bool) (a b : List α) :
    compareArray differ .ne a b = !compareArray differ .eq a b := by
  unfold compareArray
  dsimp only
  by_cases h : a.length ≠ b.length
  · rw [if_pos h, if_pos h]
    rfl
  · rw [if_neg h, if_neg h, Bool.not_not]

lemma compareArray_none {α : Type} (differ : List α → List α → Bool) :
    ∀ relop ∈ [Relop.lt, .le, .gt, .ge], ∀ a b : List α, compareArray differ relop a b = false := by
  intro relop hmem a b
  fin_cases hmem <;> rfl

lemma compareArray_eq {α : Type} {differ : List α → List α → Bool} {Same : List α → List α → Prop}
    {a b : List α} (hlen : Same a b → a.length = b.length)
    (h : a.length = b.length → (differ a b = false ↔ Same a b)) :
    compareArray differ .eq a b = true ↔ Same a b := by
  unfold compareArray
  dsimp only
  by_cases hl : a.length = b.length
  · rw [if_neg (not_not.mpr hl), Bool.not_eq_true', h hl]
  · rw [if_pos hl]
    exact iff_of_false Bool.false_ne_true fun hs => hl (hlen hs)

lemma memDiffer_eq_false {α : Type} {size : ℕ} {toNat : α → ℕ} (hinj : Function.Injective toNat)
    (hlt : ∀ v, toNat v < 256 ^ size) {a b : List α} (hlen : a.length = b.length) :
    memDiffer size toNat a b = false ↔ a = b := by
  have hbytes : ∀ l : List α, (l.flatMap fun v => Bytes.le size (toNat v)).length =
      l.length * size := by
    intro l
    induction l with
    | nil => simp
    | cons v l ih => rw [List.flatMap_cons, List.length_append, ih, Bytes.length_le, List.length_cons,
        Nat.succ_mul, Nat.add_comm]
  have hflat : ∀ {a b : List α}, a.length = b.length →
      (a.flatMap fun v => Bytes.le size (toNat v)) = (b.flatMap fun v => Bytes.le size (toNat v)) →
        a = b := by
    intro a b hl heq
    induction a generalizing b with
    | nil => exact (List.length_eq_zero_iff.mp hl.symm).symm
    | cons v a ih =>
      cases b with
      | nil => cases hl
      | cons w b =>
        rw [List.flatMap_cons, List.flatMap_cons] at heq
        obtain ⟨hhead, htail⟩ := List.append_inj heq (by simp)
        have hv := congrArg Bytes.ofLE hhead
        rw [Bytes.ofLE_le_of_lt (hlt v), Bytes.ofLE_le_of_lt (hlt w)] at hv
        rw [hinj hv, ih (Nat.succ.inj hl) htail]
  unfold memDiffer
  rw [decide_eq_false_iff_not, not_not, memcmp_eq_zero (by rw [hbytes, hbytes, hlen])]
  exact ⟨hflat hlen, fun h => by rw [h]⟩

lemma anyDiffer_eq_false {α : Type} {differ : α → α → Bool} {Same : α → α → Prop}
    (h : ∀ a b, differ a b = false ↔ Same a b) {a b : List α} (hlen : a.length = b.length) :
    anyDiffer differ a b = false ↔ List.Forall₂ Same a b := by
  induction a generalizing b with
  | nil =>
    rw [List.length_eq_zero_iff.mp hlen.symm]
    exact iff_of_true rfl .nil
  | cons v a ih =>
    cases b with
    | nil => cases hlen
    | cons w b =>
      rw [anyDiffer, List.forall₂_cons, ← h v w]
      by_cases hd : differ v w = true
      · rw [if_pos hd, hd]
        simp
      · rw [if_neg hd, ih (Nat.succ.inj hlen)]
        simp [Bool.eq_false_iff.mpr hd]

lemma strDiffer_eq_false (a b : Str) : strDiffer a b = false ↔ SameStr a b := by
  unfold strDiffer SameStr
  rw [decide_eq_false_iff_not, not_not]
  exact strcasecmp_eq_zero a.not_zero b.not_zero

lemma binaryDiffer_eq_false (a b : Binary) : binaryDiffer a b = false ↔ SameBinary a b := by
  unfold binaryDiffer SameBinary
  by_cases hcb : a.cb = b.cb
  · rw [if_neg (not_not.mpr hcb), decide_eq_false_iff_not, not_not, memcmp_eq_zero hcb]
  · rw [if_pos hcb]
    exact iff_of_false (by decide) fun h => hcb (congrArg List.length h)

lemma compareBinary_eq (a b : Binary) : compareBinary .eq a b = true ↔ SameBinary a b := by
  unfold compareBinary SameBinary
  dsimp only
  by_cases hcb : a.cb = b.cb
  · rw [if_neg (not_not.mpr hcb)]
    by_cases hpb : a.pb = none
    · have ha : a.bytes = [] := by rw [Binary.bytes, hpb, Option.getD_none]
      have hb : b.bytes = [] := by
        refine List.length_eq_zero_iff.mp (hcb.symm.trans ?_)
        rw [Binary.cb, ha, List.length_nil]
      rw [if_pos hpb, ha, hb]
      exact iff_of_true rfl rfl
    · rw [if_neg hpb, decide_eq_true_eq, memcmp_eq_zero hcb]
  · rw [if_pos hcb]
    exact iff_of_false Bool.false_ne_true fun h => hcb (congrArg List.length h)

lemma compareBinary_ne (a b : Binary) : compareBinary .ne a b = !compareBinary .eq a b := by
  unfold compareBinary
  dsimp only
  by_cases hcb : a.cb = b.cb
  · rw [if_neg (not_not.mpr hcb), if_neg (not_not.mpr hcb)]
    by_cases hpb : a.pb = none
    · rw [if_pos hpb, if_pos hpb]
      rfl
    · rw [if_neg hpb, if_neg hpb]
      simp
  · rw [if_pos hcb, if_pos hcb]
    rfl

lemma compareBinary_swap (a b : Binary) : compareBinary .gt a b = compareBinary .lt b a := by
  unfold compareBinary
  dsimp only
  rw [memcmpShorter_swap a b]
  by_cases ha : a.cb = 0 <;> by_cases hb : b.cb = 0 <;> simp [ha, hb]

/-- The order of two strings of bytes: that of the bytes which both have, and no bytes come first. -/
lemma compareBinary_coherent {a b : Binary} (h : PropType.OrderClear .binary a b) :
    Coherent compareBinary a b := by
  have heq := compareBinary_eq a b
  have hzero : ∀ c : Binary, c.cb = 0 ↔ c.bytes = [] := fun c => List.length_eq_zero_iff
  by_cases ha : a.cb = 0
  · by_cases hb : b.cb = 0
    · have hsame : SameBinary a b := by rw [SameBinary, (hzero a).mp ha, (hzero b).mp hb]
      rw [iff_true_right hsame] at heq
      refine ⟨compareBinary_ne a b, ?_, ?_, compareBinary_swap a b, ?_⟩
      · rw [heq]
        simp [compareBinary, ha]
      · rw [heq]
        simp [compareBinary, hb]
      · rw [heq]
        simp [OneOf, compareBinary, ha, hb]
    · have hother : compareBinary .eq a b = false := by simp [compareBinary, ha, Ne.symm hb]
      refine ⟨compareBinary_ne a b, ?_, ?_, compareBinary_swap a b, ?_⟩
      · simp [compareBinary, ha, hb]
      · rw [hother]
        simp [compareBinary, ha, hb]
      · rw [hother]
        simp [OneOf, compareBinary, ha, hb]
  · by_cases hb : b.cb = 0
    · have hother : compareBinary .eq a b = false := by simp [compareBinary, ha, hb]
      refine ⟨compareBinary_ne a b, ?_, ?_, compareBinary_swap a b, ?_⟩
      · rw [hother]
        simp [compareBinary, ha, hb]
      · simp [compareBinary, ha, hb]
      · rw [hother]
        simp [OneOf, compareBinary, ha, hb]
    · -- both have bytes, and the shorter one decides
      have hsame : memcmpShorter a b = 0 ↔ SameBinary a b := by
        rw [memcmpShorter_eq_zero, SameBinary]
        constructor
        · intro hprefix
          rcases h with heq | hnil | hnil | hclear
          · exact heq
          · exact absurd ((hzero a).mpr hnil) ha
          · exact absurd ((hzero b).mpr hnil) hb
          · exact absurd hprefix (not_or.mpr hclear)
        · exact fun hbytes => .inl (hbytes ▸ List.prefix_rfl)
      have heq' : compareBinary .eq a b = decide (memcmpShorter a b = 0) := by
        rw [Bool.eq_iff_iff, heq, decide_eq_true_eq, hsame]
      obtain ⟨-, hle, hge, -, hone⟩ := coherent_test (memcmpShorter a b) 0
      refine ⟨compareBinary_ne a b, ?_, ?_, compareBinary_swap a b, ?_⟩
      · rw [heq']
        simpa [compareBinary, Relop.test, ha, hb] using hle
      · rw [heq']
        simpa [compareBinary, Relop.test, ha, hb] using hge
      · rw [heq']
        simpa [compareBinary, Relop.test, ha, hb] using hone

lemma compareSvreid_eq (a b : Svreid) : compareSvreid .eq a b = true ↔ SameSvreid a b := by
  unfold compareSvreid SameSvreid
  dsimp only
  cases a.pbin with
  | none =>
    cases b.pbin with
    | none =>
      dsimp only
      by_cases hfolder : a.folderId = b.folderId
      · by_cases hmessage : a.messageId = b.messageId
        · by_cases hinstance : a.instanceNum = b.instanceNum
          · simp [hfolder, hmessage, hinstance]
          · simp [hinstance]
        · simp [hmessage]
      · simp [hfolder]
    | some q => simp
  | some p =>
    cases b.pbin with
    | none => simp
    | some q =>
      dsimp only
      rw [SameBinary]
      by_cases hcb : p.cb = q.cb
      · rw [if_neg (not_not.mpr hcb)]
        by_cases hzero : p.cb = 0
        · rw [if_pos hzero, List.length_eq_zero_iff.mp hzero,
            List.length_eq_zero_iff.mp (hcb.symm.trans hzero)]
          exact iff_of_true rfl rfl
        · rw [if_neg hzero, decide_eq_true_eq, memcmp_eq_zero hcb]
      · rw [if_pos hcb]
        exact iff_of_false Bool.false_ne_true fun h => hcb (congrArg List.length h)

lemma compareSvreid_ne {a b : Svreid} (h : PropType.NeClear .svreid a b) :
    compareSvreid .ne a b = !compareSvreid .eq a b := by
  have hclear : a.pbin = none → b.pbin = none → _ := h
  unfold SameSvreid at hclear
  unfold compareSvreid
  dsimp only
  cases ha : a.pbin with
  | none =>
    cases hb : b.pbin with
    | none =>
      rw [ha, hb] at hclear
      dsimp only at hclear ⊢
      rcases hclear rfl rfl with ⟨hfolder, hmessage, hinstance⟩ | ⟨hfolder, hmessage, hinstance⟩
      · simp [hfolder, hmessage, hinstance]
      · simp [hfolder, hmessage, hinstance]
    | some q => rfl
  | some p =>
    cases hb : b.pbin with
    | none => rfl
    | some q =>
      dsimp only
      by_cases hcb : p.cb = q.cb
      · rw [if_neg (not_not.mpr hcb), if_neg (not_not.mpr hcb)]
        by_cases hzero : p.cb = 0
        · rw [if_pos hzero, if_pos hzero]
          rfl
        · rw [if_neg hzero, if_neg hzero]
          simp
      · rw [if_pos hcb, if_pos hcb]
        rfl

lemma compareShort_coherentFor (a b : UInt16) : CoherentFor .short a b where
  eq := by
    change decide (a.toNat = b.toNat) = true ↔ a = b
    rw [decide_eq_true_eq, UInt16.toNat_inj]
  swap := rfl
  ne _ := (coherent_test a.toNat b.toNat).ne
  le _ _ hle := by
    have hle : a.toNat ≤ b.toNat := hle
    have hcompare : propvalCompareRelop .le .short a b = Relop.le.test a.toNat b.toNat := by
      change (decide (a ≤ b) || decide (b < a)) = decide (a.toNat ≤ b.toNat)
      rw [decide_eq_true hle, decide_eq_true (UInt16.le_iff_toNat_le.mpr hle), Bool.true_or]
    rw [hcompare]
    exact (coherent_test a.toNat b.toNat).le
  ge _ _ := (coherent_test a.toNat b.toNat).ge
  one _ _ := (coherent_test a.toNat b.toNat).one
  none h := absurd trivial h

/-- Numbers of any width. -/
lemma coherentFor_number {t : PropType} (hordered : t.Ordered) {toNat : t.Val → ℕ}
    (hinj : Function.Injective toNat)
    (h : ∀ relop a b, propvalCompareRelop relop t a b = relop.test (toNat a) (toNat b))
    (hsame : ∀ a b, t.Same a b ↔ a = b) (a b : t.Val) : CoherentFor t a b := by
  refine .of_coherent hordered ?_ ?_
  · obtain ⟨hne, hle, hge, hswap, hone⟩ := coherent_test (toNat a) (toNat b)
    refine ⟨?_, ?_, ?_, ?_, ?_⟩
    all_goals simp only [h]
    · exact hne
    · exact hle
    · exact hge
    · exact hswap
    · exact hone
  · rw [h, hsame]
    exact decide_eq_true_iff.trans hinj.eq_iff

/-- Values with a comparison that returns a sign. -/
lemma coherentFor_sign {t : PropType} (hordered : t.Ordered) {cmp : t.Val → t.Val → ℤ}
    (h : ∀ relop a b, propvalCompareRelop relop t a b = relop.test (cmp a b) 0)
    (hswap : ∀ a b, cmp b a = -cmp a b) (hsame : ∀ a b, cmp a b = 0 ↔ t.Same a b) (a b : t.Val) :
    CoherentFor t a b := by
  refine .of_coherent hordered ?_ ?_
  · obtain ⟨hne, hle, hge, hswap, hone⟩ := coherent_of_sign (hswap a b)
    refine ⟨?_, ?_, ?_, ?_, ?_⟩
    all_goals simp only [h]
    · exact hne
    · exact hle
    · exact hge
    · exact hswap
    · exact hone
  · rw [h, ← hsame]
    exact decide_eq_true_iff

lemma coherentFor_binary (a b : Binary) : CoherentFor .binary a b where
  eq := compareBinary_eq a b
  swap := compareBinary_swap a b
  ne _ := compareBinary_ne a b
  le _ h _ := (compareBinary_coherent h).le
  ge _ h := (compareBinary_coherent h).ge
  one _ h := (compareBinary_coherent h).one
  none h := absurd trivial h

lemma coherentFor_svreid (a b : Svreid) : CoherentFor .svreid a b := by
  refine .of_differ id (compareSvreid_eq a b) (fun h => compareSvreid_ne h) fun relop hmem x y => ?_
  fin_cases hmem <;> rfl

/-- **The relational operators** on two values of a type: equal is the same value (but for the case
of letters), greater is less the other way round, and not equal, less or equal, and greater or equal
are what they say, exactly one of less, equal and greater being the case, for the values that are
compared as the order of the type has it. Types without an order have no other operators. -/
theorem propvalCompareRelop_coherent (t : PropType) (a b : t.Val) : CoherentFor t a b := by
  cases t with
  | short => exact compareShort_coherentFor a b
  | long =>
    exact @coherentFor_number .long trivial UInt32.toNat (fun _ _ => UInt32.toNat_inj.mp)
      (fun _ _ _ => rfl) (fun _ _ => Iff.rfl) a b
  | error =>
    exact @coherentFor_number .error trivial UInt32.toNat (fun _ _ => UInt32.toNat_inj.mp)
      (fun _ _ _ => rfl) (fun _ _ => Iff.rfl) a b
  | byte =>
    exact @coherentFor_number .byte trivial UInt8.toNat (fun _ _ => UInt8.toNat_inj.mp)
      (fun _ _ _ => rfl) (fun _ _ => Iff.rfl) a b
  | currency =>
    exact @coherentFor_number .currency trivial UInt64.toNat (fun _ _ => UInt64.toNat_inj.mp)
      (fun _ _ _ => rfl) (fun _ _ => Iff.rfl) a b
  | longlong =>
    exact @coherentFor_number .longlong trivial UInt64.toNat (fun _ _ => UInt64.toNat_inj.mp)
      (fun _ _ _ => rfl) (fun _ _ => Iff.rfl) a b
  | filetime =>
    exact @coherentFor_number .filetime trivial UInt64.toNat (fun _ _ => UInt64.toNat_inj.mp)
      (fun _ _ _ => rfl) (fun _ _ => Iff.rfl) a b
  | string =>
    exact @coherentFor_sign .string trivial (fun a b => strcasecmp (Str.chars a) (Str.chars b))
      (fun _ _ _ => rfl) (fun _ _ => strcasecmp_swap _ _)
      (fun a b => strcasecmp_eq_zero (Str.not_zero a) (Str.not_zero b)) a b
  | wstring =>
    exact @coherentFor_sign .wstring trivial (fun a b => strcasecmp (Str.chars a) (Str.chars b))
      (fun _ _ _ => rfl) (fun _ _ => strcasecmp_swap _ _)
      (fun a b => strcasecmp_eq_zero (Str.not_zero a) (Str.not_zero b)) a b
  | guid =>
    exact @coherentFor_sign .guid trivial guidCompare (fun _ _ _ => rfl) guidCompare_swap
      guidCompare_eq_zero a b
  | binary => exact coherentFor_binary a b
  | svreid => exact coherentFor_svreid a b
  | shortArray =>
    exact .of_differ id (compareArray_eq (fun h => congrArg List.length h)
      (memDiffer_eq_false (fun _ _ => UInt16.toNat_inj.mp) fun v => v.toNat_lt))
      (fun _ => compareArray_ne _ _ _) (compareArray_none _)
  | longArray =>
    exact .of_differ id (compareArray_eq (fun h => congrArg List.length h)
      (memDiffer_eq_false (fun _ _ => UInt32.toNat_inj.mp) fun v => v.toNat_lt))
      (fun _ => compareArray_ne _ _ _) (compareArray_none _)
  | longlongArray =>
    exact .of_differ id (compareArray_eq (fun h => congrArg List.length h)
      (memDiffer_eq_false (fun _ _ => UInt64.toNat_inj.mp) fun v => v.toNat_lt))
      (fun _ => compareArray_ne _ _ _) (compareArray_none _)
  | stringArray =>
    exact .of_differ id (compareArray_eq List.Forall₂.length_eq
      (anyDiffer_eq_false strDiffer_eq_false)) (fun _ => compareArray_ne _ _ _)
      (compareArray_none _)
  | wstringArray =>
    exact .of_differ id (compareArray_eq List.Forall₂.length_eq
      (anyDiffer_eq_false strDiffer_eq_false)) (fun _ => compareArray_ne _ _ _)
      (compareArray_none _)
  | binaryArray =>
    exact .of_differ id (compareArray_eq List.Forall₂.length_eq
      (anyDiffer_eq_false binaryDiffer_eq_false)) (fun _ => compareArray_ne _ _ _)
      (compareArray_none _)

/-- Two strings that are not the same are equal if only the case of their letters differs, and two
equal arrays are not less or equal. -/
theorem not_propvalCompareRelop_coherent :
    (¬ ∀ (t : PropType) (a b : t.Val), propvalCompareRelop .eq t a b = true ↔ a = b) ∧
      ¬ ∀ (t : PropType) (a b : t.Val), propvalCompareRelop .le t a b =
        (propvalCompareRelop .lt t a b || propvalCompareRelop .eq t a b) := by
  constructor
  · intro h
    have heq := (h .string (⟨[97], by decide⟩ : Str) (⟨[65], by decide⟩ : Str)).mp (by decide)
    exact absurd (congrArg Str.chars heq) (by decide)
  · intro h
    exact absurd (h .shortArray ([1] : List UInt16) ([1] : List UInt16)) (by decide)

end SteepSystem.PropVals
