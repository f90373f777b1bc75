import SteepSystem.Ndr.Model

/-!
What is pushed is pulled. An encoding says which bytes a push writes at an offset; a push writes
it where there is room, and a pull reads it back wherever it stands.
-/

namespace SteepSystem.Ndr

open SteepSystem.Lib.Bytes

/-- Which bytes are written, by the flags and the offset. -/
abbrev Enc := Flags → ℕ → List UInt8

def Enc.nothing : Enc := fun _ _ => []

def Enc.then (a b : Enc) : Enc := fun flags offset =>
  a flags offset ++ b flags (offset + (a flags offset).length)

/-- None of the flags that make a blob a padding. -/
def Flags.plain (flags : Flags) : Bool :=
  !flags.remaining && !flags.align2 && !flags.align4 && !flags.align8

/-- `p` writes `e` where there is room for it. -/
def Writes (p : Push) (e : Enc) : Prop :=
  ∀ s : NdrPush, s.flags.plain → s.allocSize < 2 ^ 32 →
    s.data.length + (e s.flags s.data.length).length ≤ s.allocSize →
    p s = .ok ((), { s with data := s.data ++ e s.flags s.data.length })

/-- `g` reads `a` from `e`, whatever follows. -/
def Reads {α : Type} (g : Pull α) (e : Enc) (a : α) : Prop :=
  ∀ (s : NdrPull) (rest : List UInt8), s.flags.plain → (∀ i, s.malloc i) →
    s.data.length < 2 ^ 32 → s.offset ≤ s.data.length →
    s.data.drop s.offset = e s.flags s.offset ++ rest →
    g s = .ok (a, { s with offset := s.offset + (e s.flags s.offset).length })

variable {α β : Type} {p q : Push} {g : Pull α} {e e' : Enc} {a : α} {b : β}

lemma Writes.then (h : Writes p e) (h' : Writes q e') : Writes (do p; q) (e.then e') := by
  intro s hplain hsize hroom
  simp only [Enc.then, List.length_append] at hroom
  have hp := h s hplain hsize (by omega)
  have hq := h' { s with data := s.data ++ e s.flags s.data.length } hplain hsize (by
    simp only [List.length_append]
    omega)
  calc (do p; q : Push) s = (p s).bind fun x => q x.2 := rfl
    _ = q { s with data := s.data ++ e s.flags s.data.length } := by rw [hp]; rfl
    _ = _ := by
      rw [hq]
      simp [Enc.then]

lemma Reads.then {h : α → Pull β} (hg : Reads g e a) (hh : Reads (h a) e' b) :
    Reads (g >>= h) (e.then e') b := by
  intro s rest hplain hmalloc hsize hoff hdrop
  simp only [Enc.then, List.append_assoc] at hdrop
  have h1 := hg s _ hplain hmalloc hsize hoff hdrop
  have hlen := congrArg List.length hdrop
  simp only [List.length_drop, List.length_append] at hlen
  have h2 := hh { s with offset := s.offset + (e s.flags s.offset).length } rest hplain hmalloc
    hsize (by simp only; omega) (by
      simp only
      rw [← List.drop_drop, hdrop, List.drop_left])
  calc (g >>= h) s = (g s).bind fun x => h x.1 x.2 := rfl
    _ = h a { s with offset := s.offset + (e s.flags s.offset).length } := by rw [h1]; rfl
    _ = _ := by
      rw [h2]
      simp [Enc.then, Nat.add_assoc]

lemma Reads.last {h : α → Pull β} (hg : Reads g e a) (hb : h a = pure b) :
    Reads (g >>= h) e b := by
  intro s rest hplain hmalloc hsize hoff hdrop
  have h1 := hg s rest hplain hmalloc hsize hoff hdrop
  calc (g >>= h) s = (g s).bind fun x => h x.1 x.2 := rfl
    _ = h a { s with offset := s.offset + (e s.flags s.offset).length } := by rw [h1]; rfl
    _ = _ := by rw [hb]; rfl

lemma Reads.map {f : α → β} (hg : Reads g e a) (hb : f a = b) :
    Reads (do let x ← g; pure (f x)) e b := hg.last (by rw [hb])

lemma reads_pure (a : α) : Reads (pure a) .nothing a := by
  intro s rest _ _ _ _ _
  rfl

lemma writes_pure : Writes (pure ()) .nothing := by
  intro s _ _ _
  simp only [Enc.nothing, List.append_nil]
  rfl

/-! ### Bytes -/

def Enc.bytes (data : List UInt8) : Enc := fun _ _ => data

lemma pushBytes_eq {s : NdrPush} {data : List UInt8} (hsize : s.allocSize < 2 ^ 32)
    (hroom : s.data.length + data.length ≤ s.allocSize) :
    pushBytes data s = .ok ((), { s with data := s.data ++ data }) := by
  rw [pushBytes, Nat.mod_eq_of_lt (by omega), if_neg (by omega), if_neg (by omega)]

lemma writes_bytes (data : List UInt8) : Writes (pushBytes data) (.bytes data) :=
  fun _ _ hsize hroom => pushBytes_eq hsize hroom

lemma pullBytes_eq {s : NdrPull} {data rest : List UInt8} {n : ℕ} (hn : data.length = n)
    (hsize : s.data.length < 2 ^ 32) (hoff : s.offset ≤ s.data.length)
    (hdrop : s.data.drop s.offset = data ++ rest) :
    pullBytes n s = .ok (⟨data, hn⟩, { s with offset := s.offset + data.length }) := by
  have hlen := congrArg List.length hdrop
  simp only [List.length_drop, List.length_append] at hlen
  unfold pullBytes
  rw [Nat.mod_eq_of_lt (by omega), if_neg (by omega),
    dif_pos (by rw [List.length_drop]; omega)]
  simp only [hdrop, ← hn, List.take_left]

lemma reads_bytes {n : ℕ} (data : Bytes n) : Reads (pullBytes n) (.bytes data.1) data :=
  fun _ _ _ _ hsize hoff hdrop => pullBytes_eq data.2 hsize hoff hdrop

/-! ### Alignment -/

def Enc.align (size : ℕ) : Enc := fun flags offset =>
  if flags.noAlign then []
  else List.replicate (roundUp offset (flags.alignment size) - offset) 0

lemma le_roundUp (offset : ℕ) {n : ℕ} (hn : 0 < n) : offset ≤ roundUp offset n := by
  have hmod := Nat.mod_lt (offset + (n - 1)) hn
  have hdiv := Nat.div_add_mod' (offset + (n - 1)) n
  unfold roundUp
  omega

lemma alignment_pos (flags : Flags) {size : ℕ} (h : 0 < size) : 0 < flags.alignment size := by
  unfold Flags.alignment
  split_ifs <;> omega

lemma pushPad_eq {s : NdrPush} {pad : ℕ} (hsize : s.allocSize < 2 ^ 32)
    (hroom : s.data.length + pad ≤ s.allocSize) :
    pushPad pad s = .ok ((), { s with data := s.data ++ List.replicate pad 0 }) := by
  induction pad generalizing s with
  | zero =>
    rw [List.replicate_zero, List.append_nil]
    rfl
  | succ pad ih =>
    have h0 : pushBytes [0] s = .ok ((), { s with data := s.data ++ [0] }) :=
      pushBytes_eq hsize (by rw [List.length_singleton]; omega)
    have h1 := ih (s := { s with data := s.data ++ [0] }) hsize (by
      simp only [List.length_append, List.length_singleton]
      omega)
    calc pushPad (pad + 1) s = (pushBytes [0] s).bind fun x => pushPad pad x.2 := rfl
      _ = pushPad pad { s with data := s.data ++ [0] } := by rw [h0]; rfl
      _ = _ := by
        rw [h1]
        simp [List.replicate_succ]

lemma writes_align (size : ℕ) : Writes (pushAlign size) (.align size) := by
  intro s _ hsize hroom
  have hpush : pushAlign size s = if s.flags.noAlign then .ok ((), s) else
      pushPad ((roundUp s.data.length (s.flags.alignment size) - s.data.length) % 2 ^ 32) s := by
    change (if s.flags.noAlign then _ else _ : Push) s = _
    split_ifs <;> rfl
  rw [hpush]
  unfold Enc.align at hroom ⊢
  split_ifs at hroom ⊢
  · simp
  · rw [List.length_replicate] at hroom
    rw [Nat.mod_eq_of_lt (by omega)]
    exact pushPad_eq hsize hroom

lemma reads_align {size : ℕ} (h : 0 < size) : Reads (pullAlign size) (.align size) () := by
  intro s rest _ _ hsize hoff hdrop
  have hpos := alignment_pos s.flags h
  have hle := le_roundUp s.offset hpos
  have hlen := congrArg List.length hdrop
  unfold Enc.align at hdrop hlen ⊢
  unfold pullAlign
  simp only [List.length_drop, List.length_append] at hlen
  by_cases hno : s.flags.noAlign
  · simp only [hno, if_true, List.length_nil, Nat.add_zero]
    rw [if_neg (by omega)]
  · simp only [hno, Bool.false_eq_true, if_false, List.length_replicate] at hdrop hlen ⊢
    have hcheck : checkPadding s (s.flags.alignment size) = .ok () := by
      unfold checkPadding
      simp only [hdrop]
      rw [List.take_left' (List.length_replicate ..)]
      split_ifs with hlarge hany hend
      · rfl
      · simp at hany
      · omega
      · rfl
    have hoffset : roundUp s.offset (s.flags.alignment size) % 2 ^ 32 =
        s.offset + (roundUp s.offset (s.flags.alignment size) - s.offset) := by
      rw [Nat.mod_eq_of_lt (by omega)]
      omega
    by_cases hpad : s.flags.padCheck
    · simp only [hpad, if_true, hcheck, hoffset]
      change (if _ then _ else _) = _
      rw [if_neg (by omega)]
    · simp only [hpad, Bool.false_eq_true, if_false, hoffset]
      change (if _ then _ else _) = _
      rw [if_neg (by omega)]

/-! ### Integers -/

def Enc.fixed (n v : ℕ) : Enc := fun flags _ => flags.bytes n v

def Enc.halves (v : ℕ) : Enc := fun flags _ => flags.halves v

lemma length_bytes (flags : Flags) (n v : ℕ) : (flags.bytes n v).length = n := by
  unfold Flags.bytes
  split_ifs
  · exact length_be n v
  · exact length_le n v

lemma value_bytes (flags : Flags) {n v : ℕ} (h : v < 256 ^ n) :
    flags.value (flags.bytes n v) = v := by
  unfold Flags.value Flags.bytes
  split_ifs
  · exact ofBE_be_of_lt h
  · exact ofLE_le_of_lt h

lemma writes_fixed (n v : ℕ) : Writes (pushFixed n v) (.fixed n v) := by
  intro s _ hsize hroom
  exact pushBytes_eq hsize hroom

lemma reads_fixed {n v : ℕ} (h : v < 256 ^ n) : Reads (pullFixed n) (.fixed n v) v := by
  intro s rest hplain hmalloc hsize hoff hdrop
  have hbytes := pullBytes_eq (length_bytes s.flags n v) hsize hoff hdrop
  calc pullFixed n s = (pullBytes n s).bind fun x => .ok (x.2.flags.value x.1.1, x.2) := rfl
    _ = _ := by
      rw [hbytes]
      simp only [Except.bind, value_bytes _ h]
      rfl

lemma length_halves (flags : Flags) (v : ℕ) : (flags.halves v).length = 8 := by
  unfold Flags.halves
  split_ifs <;> rw [List.length_append, length_bytes, length_bytes]

lemma ofHalves_halves (flags : Flags) {v : ℕ} (h : v < 2 ^ 64) :
    flags.ofHalves (flags.halves v) = v := by
  have h1 : v / 2 ^ 32 < 256 ^ 4 := by omega
  have h2 : v % 2 ^ 32 < 256 ^ 4 := by omega
  unfold Flags.ofHalves Flags.halves
  split_ifs
  · rw [List.take_left' (length_bytes ..), List.drop_left' (length_bytes ..), value_bytes _ h1,
      value_bytes _ h2]
    omega
  · rw [List.take_left' (length_bytes ..), List.drop_left' (length_bytes ..), value_bytes _ h1,
      value_bytes _ h2]
    omega

def Enc.uint16 (v : UInt16) : Enc := (Enc.align 2).then (.fixed 2 v.toNat)

def Enc.uint32 (v : UInt32) : Enc := (Enc.align 4).then (.fixed 4 v.toNat)

def Enc.uint64 (v : UInt64) : Enc := (Enc.align 8).then (.halves v.toNat)

lemma writes_uint16 (v : UInt16) : Writes (pushUint16 v) (.uint16 v) :=
  (writes_align 2).then (writes_fixed 2 v.toNat)

lemma reads_uint16 (v : UInt16) : Reads pullUint16 (.uint16 v) v :=
  (reads_align (by decide)).then ((reads_fixed v.toNat_lt).map (UInt16.ofNat_toNat))

lemma writes_uint32 (v : UInt32) : Writes (pushUint32 v) (.uint32 v) :=
  (writes_align 4).then (writes_fixed 4 v.toNat)

lemma reads_uint32 (v : UInt32) : Reads pullUint32 (.uint32 v) v :=
  (reads_align (by decide)).then ((reads_fixed v.toNat_lt).map (UInt32.ofNat_toNat))

lemma writes_uint64 (v : UInt64) : Writes (pushUint64 v) (.uint64 v) := by
  refine (writes_align 8).then fun s _ hsize hroom => ?_
  exact pushBytes_eq hsize hroom

lemma reads_uint64 (v : UInt64) : Reads pullUint64 (.uint64 v) v := by
  refine (reads_align (by decide)).then fun s rest hplain hmalloc hsize hoff hdrop => ?_
  have hbytes := pullBytes_eq (length_halves s.flags v.toNat) hsize hoff hdrop
  calc (do let b ← pullBytes 8; let s ← get; pure (UInt64.ofNat (s.flags.ofHalves b.1)) :
        Pull UInt64) s
      = (pullBytes 8 s).bind fun x => .ok (UInt64.ofNat (x.2.flags.ofHalves x.1.1), x.2) := rfl
    _ = _ := by
      rw [hbytes]
      simp only [Except.bind, ofHalves_halves _ v.toNat_lt, UInt64.ofNat_toNat]
      rfl

lemma reads_int16 (v : Int16) : Reads pullInt16 (.uint16 v.toUInt16) v :=
  (reads_uint16 v.toUInt16).map (Int16.toInt16_toUInt16 v)

lemma reads_int32 (v : Int32) : Reads pullInt32 (.uint32 v.toUInt32) v :=
  (reads_uint32 v.toUInt32).map (Int32.toInt32_toUInt32 v)

lemma reads_int64 (v : Int64) : Reads pullInt64 (.uint64 v.toUInt64) v :=
  (reads_uint64 v.toUInt64).map (Int64.toInt64_toUInt64 v)

lemma reads_uint8 (v : UInt8) : Reads pullUint8 (.bytes [v]) v := by
  refine Reads.map (a := ⟨[v], rfl⟩) (reads_bytes ⟨[v], rfl⟩) ?_
  simp [ofLE]

lemma reads_int8 (v : Int8) : Reads pullInt8 (.bytes [v.toUInt8]) v :=
  (reads_uint8 v.toUInt8).map (Int8.toInt8_toUInt8 v)

/-- The wide encoding under `ndr64`, the narrow one else. -/
def Enc.byNdr64 (wide narrow : Enc) : Enc := fun flags offset =>
  if flags.ndr64 then wide flags offset else narrow flags offset

lemma Writes.byNdr64 (h : Writes p e) (h' : Writes q e') :
    Writes (do let s ← get; if s.flags.ndr64 then p else q) (.byNdr64 e e') := by
  intro s hplain hsize hroom
  change (if s.flags.ndr64 then p else q : Push) s = _
  unfold Enc.byNdr64 at hroom ⊢
  by_cases h64 : s.flags.ndr64
  · simp only [h64, if_true] at hroom ⊢
    exact h s hplain hsize hroom
  · simp only [h64, Bool.false_eq_true, if_false] at hroom ⊢
    exact h' s hplain hsize hroom

lemma Reads.byNdr64 {g' : Pull α} (h : Reads g e a) (h' : Reads g' e' a) :
    Reads (do let s ← get; if s.flags.ndr64 then g else g') (.byNdr64 e e') a := by
  intro s rest hplain hmalloc hsize hoff hdrop
  change (if s.flags.ndr64 then g else g' : Pull α) s = _
  unfold Enc.byNdr64 at hdrop ⊢
  by_cases h64 : s.flags.ndr64
  · simp only [h64, if_true] at hdrop ⊢
    exact h s rest hplain hmalloc hsize hoff hdrop
  · simp only [h64, Bool.false_eq_true, if_false] at hdrop ⊢
    exact h' s rest hplain hmalloc hsize hoff hdrop

def Enc.long (v : Int32) : Enc := .byNdr64 (.uint64 v.toInt64.toUInt64) (.uint32 v.toUInt32)

def Enc.ulong (v : UInt32) : Enc := .byNdr64 (.uint64 v.toUInt64) (.uint32 v)

lemma writes_long (v : Int32) : Writes (pushLong v) (.long v) :=
  (writes_uint64 _).byNdr64 (writes_uint32 _)

lemma reads_long (v : Int32) : Reads pullLong (.long v) v := by
  refine Reads.byNdr64 ((reads_int64 v.toInt64).last ?_) (reads_int32 v)
  simp

lemma writes_ulong (v : UInt32) : Writes (pushUlong v) (.ulong v) :=
  (writes_uint64 _).byNdr64 (writes_uint32 _)

lemma reads_ulong (v : UInt32) : Reads pullUlong (.ulong v) v := by
  refine Reads.byNdr64 ((reads_uint64 v.toUInt64).last ?_) (reads_uint32 v)
  simp

/-! ### Structures -/

/-- What is aligned under `ndr64` only. -/
def Enc.wideAlign (size : ℕ) : Enc := .byNdr64 (.align size) .nothing

lemma writes_trailerAlign (size : ℕ) : Writes (pushTrailerAlign size) (.wideAlign size) :=
  (writes_align size).byNdr64 writes_pure

lemma reads_trailerAlign {size : ℕ} (h : 0 < size) :
    Reads (pullTrailerAlign size) (.wideAlign size) () :=
  (reads_align h).byNdr64 (reads_pure ())

lemma writes_unionAlign (size : ℕ) : Writes (pushUnionAlign size) (.wideAlign size) :=
  (writes_align size).byNdr64 writes_pure

lemma reads_unionAlign {size : ℕ} (h : 0 < size) :
    Reads (pullUnionAlign size) (.wideAlign size) () :=
  (reads_align h).byNdr64 (reads_pure ())

def Enc.guid (r : Guid) : Enc :=
  (Enc.align 4).then ((Enc.uint32 r.timeLow).then ((Enc.uint16 r.timeMid).then
    ((Enc.uint16 r.timeHiAndVersion).then ((Enc.bytes r.clockSeq.1).then
      ((Enc.bytes r.node.1).then (.wideAlign 4))))))

lemma writes_guid (r : Guid) : Writes (pushGuid r) (.guid r) :=
  (writes_align 4).then ((writes_uint32 _).then ((writes_uint16 _).then ((writes_uint16 _).then
    ((writes_bytes _).then ((writes_bytes _).then (writes_trailerAlign 4))))))

lemma reads_guid (r : Guid) : Reads pullGuid (.guid r) r :=
  (reads_align (by decide)).then ((reads_uint32 r.timeLow).then ((reads_uint16 r.timeMid).then
    ((reads_uint16 r.timeHiAndVersion).then ((reads_bytes r.clockSeq).then
      ((reads_bytes r.node).then ((reads_trailerAlign (by decide)).last rfl))))))

def Enc.syntaxId (r : SyntaxId) : Enc :=
  (Enc.align 4).then ((Enc.guid r.uuid).then ((Enc.uint32 r.version).then (.wideAlign 4)))

lemma writes_syntaxId (r : SyntaxId) : Writes (pushSyntaxId r) (.syntaxId r) :=
  (writes_align 4).then ((writes_guid _).then ((writes_uint32 _).then (writes_trailerAlign 4)))

lemma reads_syntaxId (r : SyntaxId) : Reads pullSyntaxId (.syntaxId r) r :=
  (reads_align (by decide)).then ((reads_guid r.uuid).then ((reads_uint32 r.version).then
    ((reads_trailerAlign (by decide)).last rfl)))

def Enc.contextHandle (r : ContextHandle) : Enc :=
  (Enc.align 4).then ((Enc.uint32 r.handleType).then ((Enc.guid r.guid).then (.wideAlign 4)))

lemma writes_contextHandle (r : ContextHandle) :
    Writes (pushContextHandle r) (.contextHandle r) :=
  (writes_align 4).then ((writes_uint32 _).then ((writes_guid _).then (writes_trailerAlign 4)))

lemma reads_contextHandle (r : ContextHandle) :
    Reads pullContextHandle (.contextHandle r) r :=
  (reads_align (by decide)).then ((reads_uint32 r.handleType).then ((reads_guid r.guid).then
    ((reads_trailerAlign (by decide)).last rfl)))

lemma reads_string {n : ℕ} (v : Bytes n) : Reads (pullString n) (.bytes v.1) v := by
  intro s rest hplain hmalloc hsize hoff hdrop
  unfold pullString
  split_ifs with hn
  · subst hn
    have hnil : v.1 = [] := List.eq_nil_of_length_eq_zero v.2
    have hv : v = ⟨[], rfl⟩ := Subtype.ext hnil
    simp [Enc.bytes, hv]
  · exact reads_bytes v s rest hplain hmalloc hsize hoff hdrop

def Enc.dataBlob (blob : List UInt8) : Enc :=
  (Enc.uint32 (UInt32.ofNat blob.length)).then (.bytes blob)

lemma writes_dataBlob (blob : List UInt8) : Writes (pushDataBlob blob) (.dataBlob blob) := by
  intro s hplain hsize hroom
  have hflags := hplain
  simp only [Flags.plain, Bool.and_eq_true, Bool.not_eq_true'] at hflags
  have hpush : pushDataBlob blob s =
      (do pushUint32 (UInt32.ofNat blob.length); pushBytes blob : Push) s := by
    change (if s.flags.remaining then _ else _ : Push) s = _
    simp only [hflags, Bool.false_eq_true, if_false]
  rw [hpush]
  exact (writes_uint32 _).then (writes_bytes blob) s hplain hsize hroom

lemma reads_blob (blob : List UInt8) {n : ℕ} (hn : blob.length = n) :
    Reads (pullBlob n) (.bytes blob) blob := by
  intro s rest hplain hmalloc hsize hoff hdrop
  have hlen := congrArg List.length hdrop
  simp only [List.length_drop, List.length_append, Enc.bytes] at hlen
  have hbytes := pullBytes_eq hn hsize hoff hdrop
  unfold pullBlob
  rw [Nat.mod_eq_of_lt (by omega), if_neg (by omega), if_pos (hmalloc _), hbytes]
  rfl

lemma reads_dataBlob (blob : List UInt8) : Reads pullDataBlob (.dataBlob blob) blob := by
  intro s rest hplain hmalloc hsize hoff hdrop
  have hflags := hplain
  simp only [Flags.plain, Bool.and_eq_true, Bool.not_eq_true'] at hflags
  have hpull : pullDataBlob s =
      (do let length ← pullUint32; pullBlob length.toNat : Pull (List UInt8)) s := by
    change (if s.flags.remaining then _ else _ : Pull (List UInt8)) s = _
    simp only [hflags, Bool.false_eq_true, if_false]
  have hlen := congrArg List.length hdrop
  simp only [Enc.dataBlob, Enc.then, Enc.bytes, List.length_drop, List.length_append] at hlen
  have hlt : blob.length < 2 ^ 32 := by omega
  rw [hpull]
  refine (reads_uint32 (UInt32.ofNat blob.length)).then ?_ s rest hplain hmalloc hsize hoff hdrop
  exact reads_blob blob (UInt32.toNat_ofNat_of_lt hlt).symm

/-! ### Sequences -/

def Ty.enc : (t : Ty) → t.Val → Enc
  | int8, v => .bytes [Int8.toUInt8 v]
  | uint8, v => .bytes [v]
  | int16, v => .uint16 (Int16.toUInt16 v)
  | uint16, v => .uint16 v
  | int32, v => .uint32 (Int32.toUInt32 v)
  | uint32, v => .uint32 v
  | int64, v => .uint64 (Int64.toUInt64 v)
  | uint64, v => .uint64 v
  | long, v => .long v
  | ulong, v => .ulong v
  | guid, v => .guid v
  | syntaxId, v => .syntaxId v
  | contextHandle, v => .contextHandle v
  | arrayUint8 _, v | string _, v => .bytes v.1
  | dataBlob, v => .dataBlob v
  | align a, _ => .align a.size
  | unionAlign a, _ | trailerAlign a, _ => .wideAlign a.size

lemma Alignment.size_pos (a : Alignment) : 0 < a.size := by cases a <;> decide

/-- Each type is written as its encoding says. -/
lemma writes_ty (t : Ty) (v : t.Val) : Writes (t.push v) (t.enc v) := by
  cases t with
  | int8 | uint8 | arrayUint8 | string => exact writes_bytes _
  | int16 | uint16 => exact writes_uint16 _
  | int32 | uint32 => exact writes_uint32 _
  | int64 | uint64 => exact writes_uint64 _
  | long => exact writes_long v
  | ulong => exact writes_ulong v
  | guid => exact writes_guid v
  | syntaxId => exact writes_syntaxId v
  | contextHandle => exact writes_contextHandle v
  | dataBlob => exact writes_dataBlob v
  | align a => exact writes_align a.size
  | unionAlign a => exact writes_unionAlign a.size
  | trailerAlign a => exact writes_trailerAlign a.size

/-- Each type is read back from its encoding. -/
lemma reads_ty (t : Ty) (v : t.Val) : Reads t.pull (t.enc v) v := by
  cases t with
  | int8 => exact reads_int8 v
  | uint8 => exact reads_uint8 v
  | int16 => exact reads_int16 v
  | uint16 => exact reads_uint16 v
  | int32 => exact reads_int32 v
  | uint32 => exact reads_uint32 v
  | int64 => exact reads_int64 v
  | uint64 => exact reads_uint64 v
  | long => exact reads_long v
  | ulong => exact reads_ulong v
  | guid => exact reads_guid v
  | syntaxId => exact reads_syntaxId v
  | contextHandle => exact reads_contextHandle v
  | arrayUint8 => exact reads_bytes v
  | string => exact reads_string v
  | dataBlob => exact reads_dataBlob v
  | align a => exact reads_align a.size_pos
  | unionAlign a => exact reads_unionAlign a.size_pos
  | trailerAlign a => exact reads_trailerAlign a.size_pos

def encAll : Values → Enc
  | [] => .nothing
  | v :: values => (v.1.enc v.2).then (encAll values)

lemma writes_all (values : Values) : Writes (pushAll values) (encAll values) := by
  induction values with
  | nil => exact writes_pure
  | cons v values ih => exact (writes_ty v.1 v.2).then ih

lemma reads_all (values : Values) :
    Reads (pullAll (values.map Sigma.fst)) (encAll values) values := by
  induction values with
  | nil => exact reads_pure []
  | cons v values ih => exact (reads_ty v.1 v.2).then (ih.last rfl)

/-- The bytes that a sequence takes in an empty buffer. -/
def sizeOf (flags : Flags) (values : Values) : ℕ := (encAll values flags 0).length

/-- **The round trip.** Under every combination of the four flags, a sequence of values is pushed
into an empty buffer that is large enough, and pulled again by its types, from what has been
written and whatever stands behind it, up to the same offset. -/
theorem pullAll_pushAll (bigEndian ndr64 noAlign padCheck : Bool) (values : Values)
    (allocSize : ℕ) (malloc : ℕ → Bool) (hsize : allocSize < 2 ^ 32)
    (hroom : sizeOf { bigEndian, ndr64, noAlign, padCheck } values ≤ allocSize)
    (hmalloc : ∀ offset, malloc offset) :
    ∃ s, pushAll values ⟨{ bigEndian, ndr64, noAlign, padCheck }, [], allocSize⟩ = .ok ((), s) ∧
      s.data.length ≤ allocSize ∧ ∀ rest, (s.data ++ rest).length < 2 ^ 32 →
        pullAll (values.map Sigma.fst)
          ⟨{ bigEndian, ndr64, noAlign, padCheck }, s.data ++ rest, 0, malloc⟩ =
          .ok (values,
            ⟨{ bigEndian, ndr64, noAlign, padCheck }, s.data ++ rest, s.data.length, malloc⟩) := by
  have hpush := writes_all values ⟨{ bigEndian, ndr64, noAlign, padCheck }, [], allocSize⟩ rfl hsize
    (by simpa [sizeOf] using hroom)
  refine ⟨_, hpush, by simpa [sizeOf] using hroom, fun rest hrest => ?_⟩
  have hpull := reads_all values ⟨{ bigEndian, ndr64, noAlign, padCheck },
    encAll values { bigEndian, ndr64, noAlign, padCheck } 0 ++ rest, 0, malloc⟩ rest rfl hmalloc
    (by simpa using hrest) (Nat.zero_le _) rfl
  simpa using hpull

/-- A byte, a long, an alignment, a blob and a context handle. -/
def sample : Values :=
  [⟨.uint8, (7 : UInt8)⟩, ⟨.long, (-2 : Int32)⟩, ⟨.unionAlign .five, ()⟩,
    ⟨.dataBlob, ([1, 2, 3] : List UInt8)⟩,
    ⟨.contextHandle, (⟨1, ⟨2, 3, 4, ⟨[5, 6], rfl⟩, ⟨[7, 8, 9, 10, 11, 12], rfl⟩⟩⟩ :
      ContextHandle)⟩]

theorem pullAll_pushAll_sample : ∃ s,
    pushAll sample ⟨{ bigEndian := true, ndr64 := true, padCheck := true }, [], 64⟩ = .ok ((), s) ∧
      pullAll (sample.map Sigma.fst)
        ⟨{ bigEndian := true, ndr64 := true, padCheck := true }, s.data ++ [], 0, fun _ => true⟩ =
        .ok (sample, ⟨{ bigEndian := true, ndr64 := true, padCheck := true }, s.data ++ [],
          s.data.length, fun _ => true⟩) := by
  obtain ⟨s, hpush, hlen, hpull⟩ := pullAll_pushAll true true false true sample 64 (fun _ => true)
    (by decide) (by decide) fun _ => rfl
  refine ⟨s, hpush, hpull [] ?_⟩
  rw [List.append_nil]
  omega

end SteepSystem.Ndr
