import SteepSystem.Lib.CStrings

/-!
`utf8_check` and `utf8_filter` (`LIBRARY/common/util.c`): two scans over the lead and continuation
bytes of UTF-8, one of which accepts a string and one of which rewrites it in place.
-/

namespace SteepSystem.Texts.Utf8Filter

open SteepSystem.Lib.CStrings

def utf8ByteNum (ch : UInt8) : ℕ :=
  if ch ≥ 0xFC ∧ ch < 0xFE then 6
  else if ch ≥ 0xF8 then 5
  else if ch ≥ 0xF0 then 4
  else if ch ≥ 0xE0 then 3
  else if ch ≥ 0xC0 then 2
  else if ch &&& 0x80 = 0 then 1
  else 0

/-- The loop, with the bytes that are still to come of a sequence. -/
def checkLoop : ℕ → List UInt8 → Bool
  | byteNum, [] => byteNum = 0
  | 0, ch :: s => utf8ByteNum ch ≠ 0 && checkLoop (utf8ByteNum ch - 1) s
  | byteNum + 1, ch :: s => ch &&& 0xC0 = 0x80 && checkLoop byteNum s

def utf8Check (str : List UInt8) : Bool := checkLoop 0 (cstr str)

/-- `'?'` -/
def mark : UInt8 := 0x3F

/-- The variables of the loop: the bytes before the pointer, the last one first. -/
structure State where
  front : List UInt8
  countS : ℕ
  minusS : ℕ

/-- `memset(bytes - m, '?', m)`; there is nothing before the string. -/
def memsetMark (m : ℕ) (front : List UInt8) : Option (List UInt8) :=
  if m ≤ front.length then some (List.replicate m mark ++ front.drop m) else none

/-- The bytes of a sequence that has not come to its end. -/
def flush (s : State) : Option (List UInt8) :=
  if s.minusS ≠ 0 then memsetMark (s.countS - s.minusS + 1) s.front else some s.front

def kept (b : UInt8) : Bool := b = 0x09 || b = 0x0A || b = 0x0D || (0x20 ≤ b && b ≤ 0x7E)

/-- One turn of the loop at the byte `b`. -/
def turn (s : State) (b : UInt8) : Option State :=
  if b > 0xF7 then (flush s).map fun front => ⟨mark :: front, 0, 0⟩
  else if b ≤ 0x7F then
    (flush s).map fun front => ⟨(if kept b then b else mark) :: front, 0, 0⟩
  else if b &&& 0xF8 = 0xF0 then (flush s).map fun front => ⟨b :: front, 3, 3⟩
  else if b &&& 0xF0 = 0xE0 then (flush s).map fun front => ⟨b :: front, 2, 2⟩
  else if b &&& 0xE0 = 0xC0 then (flush s).map fun front => ⟨b :: front, 1, 1⟩
  else if b &&& 0xC0 = 0x80 then
    if s.minusS ≠ 0 then some { s with front := b :: s.front, minusS := s.minusS - 1 }
    else some { s with front := mark :: s.front }
  else if s.minusS ≠ 0 then (flush s).map fun front => ⟨b :: front, 0, 0⟩
  else some ⟨mark :: s.front, 0, 0⟩

def filterLoop (s : State) : List UInt8 → Option State
  | [] => some s
  | b :: rest => (turn s b).bind fun s => filterLoop s rest

/-- The string with what is behind it, rewritten; it has to have an end. -/
def utf8Filter (string : List UInt8) : Option (List UInt8) :=
  if 0 ∈ string then
    (filterLoop ⟨[], 0, 0⟩ (cstr string)).bind fun s => (flush s).map fun front =>
      front.reverse ++ string.drop (cstr string).length
  else none

/-! ### Bytes -/

/-- What a byte is for the filter. -/
inductive Kind (b : UInt8) : Prop
  | high (h : b > 0xF7)
  | ascii (h : ¬ b > 0xF7) (h' : b ≤ 0x7F) (hnum : utf8ByteNum b = 1) (htail : ¬ b &&& 0xC0 = 0x80)
  | lead (n : ℕ) (h : ¬ b > 0xF7) (h' : ¬ b ≤ 0x7F) (hnum : utf8ByteNum b = n + 1)
    (htail : ¬ b &&& 0xC0 = 0x80)
    (hturn : ∀ s, turn s b = (flush s).map fun front => ⟨b :: front, n, n⟩)
  | tail (h : ¬ b > 0xF7) (h' : ¬ b ≤ 0x7F) (hnum : utf8ByteNum b = 0) (htail : b &&& 0xC0 = 0x80)
    (hturn : ∀ s, turn s b = if s.minusS ≠ 0 then
      some { s with front := b :: s.front, minusS := s.minusS - 1 }
      else some { s with front := mark :: s.front })

lemma classes : ∀ b : UInt8,
    b > 0xF7 ∨ (¬ b > 0xF7 ∧ b ≤ 0x7F ∧ utf8ByteNum b = 1 ∧ ¬ b &&& 0xC0 = 0x80) ∨
    (¬ b > 0xF7 ∧ ¬ b ≤ 0x7F ∧ b &&& 0xF8 = 0xF0 ∧ utf8ByteNum b = 4 ∧ ¬ b &&& 0xC0 = 0x80) ∨
    (¬ b > 0xF7 ∧ ¬ b ≤ 0x7F ∧ ¬ b &&& 0xF8 = 0xF0 ∧ b &&& 0xF0 = 0xE0 ∧ utf8ByteNum b = 3 ∧
      ¬ b &&& 0xC0 = 0x80) ∨
    (¬ b > 0xF7 ∧ ¬ b ≤ 0x7F ∧ ¬ b &&& 0xF8 = 0xF0 ∧ ¬ b &&& 0xF0 = 0xE0 ∧ b &&& 0xE0 = 0xC0 ∧
      utf8ByteNum b = 2 ∧ ¬ b &&& 0xC0 = 0x80) ∨
    (¬ b > 0xF7 ∧ ¬ b ≤ 0x7F ∧ ¬ b &&& 0xF8 = 0xF0 ∧ ¬ b &&& 0xF0 = 0xE0 ∧ ¬ b &&& 0xE0 = 0xC0 ∧
      b &&& 0xC0 = 0x80 ∧ utf8ByteNum b = 0) := by
  refine forall_uint8 ?_
  decide +kernel

lemma kind (b : UInt8) : Kind b := by
  rcases classes b with h | ⟨h, h', hn, ht⟩ | ⟨h, h', h1, hn, ht⟩ | ⟨h, h', h1, h2, hn, ht⟩ |
    ⟨h, h', h1, h2, h3, hn, ht⟩ | ⟨h, h', h1, h2, h3, h4, hn⟩
  · exact .high h
  · exact .ascii h h' hn ht
  · exact .lead 3 h h' hn ht fun s => by rw [turn, if_neg h, if_neg h', if_pos h1]
  · exact .lead 2 h h' hn ht fun s => by rw [turn, if_neg h, if_neg h', if_neg h1, if_pos h2]
  · exact .lead 1 h h' hn ht fun s => by
      rw [turn, if_neg h, if_neg h', if_neg h1, if_neg h2, if_pos h3]
  · exact .tail h h' hn h4 fun s => by
      rw [turn, if_neg h, if_neg h', if_neg h1, if_neg h2, if_neg h3, if_pos h4]

/-- A byte that the filter leaves where it stands in a sequence. -/
def Passes (b : UInt8) : Prop := ¬ b > 0xF7 ∧ (b ≤ 0x7F → kept b)

lemma passes_mark : Passes mark := ⟨by decide, fun _ => rfl⟩

lemma Passes.ne_zero {b : UInt8} (h : Passes b) : b ≠ 0 := by
  rintro rfl
  exact absurd (h.2 (by decide)) (by decide)

/-! ### Sequences -/

/-- After the bytes the checker waits for `n` more. -/
def Reaches (n : ℕ) (s : List UInt8) : Prop := ∀ r, checkLoop 0 (s ++ r) = checkLoop n r

variable {s s' : State} {n : ℕ} {l : List UInt8} {b : UInt8}

lemma Reaches.one (h : Reaches 0 l) (hnum : utf8ByteNum b = n + 1) : Reaches n (l ++ [b]) := by
  intro r
  rw [List.append_assoc, h, List.singleton_append, checkLoop, hnum]
  simp

lemma Reaches.tail (h : Reaches (n + 1) l) (htail : b &&& 0xC0 = 0x80) : Reaches n (l ++ [b]) := by
  intro r
  rw [List.append_assoc, h, List.singleton_append, checkLoop]
  simp [htail]

lemma Reaches.marks (h : Reaches 0 l) (m : ℕ) : Reaches 0 (l ++ List.replicate m mark) := by
  induction m with
  | zero => simpa using h
  | succ m ih =>
    rw [List.replicate_succ', ← List.append_assoc]
    exact ih.one rfl

/-- What has been rewritten so far: whole sequences, and the beginning of one more. -/
structure Inv (s : State) : Prop where
  reaches : Reaches s.minusS s.front.reverse
  passes : ∀ b ∈ s.front, Passes b
  begun : ∃ pre seq, s.front.reverse = pre ++ seq ∧ Reaches 0 pre ∧
    (s.minusS ≠ 0 → s.minusS ≤ s.countS ∧ seq.length = s.countS - s.minusS + 1)

lemma inv_start : Inv ⟨[], 0, 0⟩ :=
  ⟨fun _ => rfl, by simp, [], [], rfl, fun _ => rfl, fun h => absurd rfl h⟩

lemma Inv.flush (h : Inv s) : ∃ front, flush s = some front ∧ front.length = s.front.length ∧
    Reaches 0 front.reverse ∧ ∀ b ∈ front, Passes b := by
  obtain ⟨hreaches, hpasses, pre, seq, hfront, hpre, hseq⟩ := h
  unfold Utf8Filter.flush
  by_cases hminus : s.minusS = 0
  · rw [if_neg (not_not.mpr hminus)]
    rw [hminus] at hreaches
    exact ⟨_, rfl, rfl, hreaches, hpasses⟩
  · obtain ⟨-, hlen⟩ := hseq hminus
    have hrev : s.front = seq.reverse ++ pre.reverse := by
      rw [← List.reverse_append, ← hfront, List.reverse_reverse]
    have hdrop : s.front.drop seq.length = pre.reverse := by
      rw [hrev, List.drop_left' (List.length_reverse)]
    have hle : seq.length ≤ s.front.length := by
      rw [hrev, List.length_append, List.length_reverse]
      omega
    rw [if_pos hminus, ← hlen, memsetMark, if_pos hle, hdrop]
    refine ⟨_, rfl, ?_, ?_, fun b hb => ?_⟩
    · rw [hrev]
      simp
    · rw [List.reverse_append, List.reverse_reverse, List.reverse_replicate]
      exact hpre.marks _
    · rcases List.mem_append.mp hb with hb | hb
      · rw [List.eq_of_mem_replicate hb]
        exact passes_mark
      · exact hpasses b (List.mem_of_mem_drop (hdrop ▸ hb))

lemma Inv.closed {front : List UInt8} (h : Reaches 0 front.reverse) (hpasses : ∀ b ∈ front, Passes b)
    (n : ℕ) : Inv ⟨front, n, 0⟩ :=
  ⟨h, hpasses, front.reverse, [], by simp, h, fun h => absurd rfl h⟩

lemma Inv.turn (h : Inv s) (b : UInt8) :
    ∃ s', turn s b = some s' ∧ Inv s' ∧ s'.front.length = s.front.length + 1 := by
  obtain ⟨front, hflush, hlen, hreaches, hpasses⟩ := h.flush
  have hone {c : UInt8} (hc : Passes c) (hnum : utf8ByteNum c = 1) (n : ℕ) :
      Inv ⟨c :: front, n, 0⟩ := by
    refine .closed ?_ (List.forall_mem_cons.mpr ⟨hc, hpasses⟩) n
    rw [List.reverse_cons]
    exact hreaches.one hnum
  cases kind b with
  | high hb =>
    refine ⟨⟨mark :: front, 0, 0⟩, ?_, hone passes_mark rfl 0, by simp [hlen]⟩
    rw [Utf8Filter.turn, if_pos hb, hflush]
    rfl
  | ascii hb hb' hnum htail =>
    refine ⟨⟨(if kept b then b else mark) :: front, 0, 0⟩, ?_, ?_, by simp [hlen]⟩
    · rw [Utf8Filter.turn, if_neg hb, if_pos hb', hflush]
      rfl
    · split
      · exact hone ⟨hb, fun _ => ‹_›⟩ hnum 0
      · exact hone passes_mark rfl 0
  | lead n hb hb' hnum htail hturn =>
    refine ⟨⟨b :: front, n, n⟩, by rw [hturn, hflush]; rfl, ⟨?_, ?_, ?_⟩, by simp [hlen]⟩
    · rw [List.reverse_cons]
      exact hreaches.one hnum
    · exact List.forall_mem_cons.mpr ⟨⟨hb, fun h => absurd h hb'⟩, hpasses⟩
    · exact ⟨front.reverse, [b], by simp, hreaches, fun _ => ⟨le_rfl, by simp⟩⟩
  | tail hb hb' hnum htail hturn =>
    rw [hturn]
    by_cases hminus : s.minusS = 0
    · have hs : front = s.front := by
        have := hflush
        rw [Utf8Filter.flush, if_neg (not_not.mpr hminus)] at this
        exact (Option.some.inj this).symm
      rw [if_neg (not_not.mpr hminus), ← hs, hminus]
      exact ⟨_, rfl, hone passes_mark rfl _, by simp⟩
    · obtain ⟨k, hk⟩ := Nat.exists_eq_succ_of_ne_zero hminus
      obtain ⟨hr, hp, pre, seq, hfront, hpre, hseq⟩ := h
      obtain ⟨hle, hlen⟩ := hseq hminus
      have hr' : Reaches k (b :: s.front).reverse := by
        rw [List.reverse_cons]
        rw [hk] at hr
        exact hr.tail htail
      rw [if_pos hminus, hk, Nat.succ_sub_one]
      refine ⟨_, rfl, ⟨hr', ?_, ?_⟩, rfl⟩
      · exact List.forall_mem_cons.mpr ⟨⟨hb, fun h => absurd h hb'⟩, hp⟩
      · refine ⟨pre, seq ++ [b], ?_, hpre, fun _ => ?_⟩
        · rw [List.reverse_cons, hfront, List.append_assoc]
        · dsimp only
          rw [List.length_append, List.length_singleton]
          omega

lemma Inv.loop (h : Inv s) (rest : List UInt8) : ∃ s', filterLoop s rest = some s' ∧ Inv s' ∧
    s'.front.length = s.front.length + rest.length := by
  induction rest generalizing s with
  | nil => exact ⟨s, rfl, h, rfl⟩
  | cons b rest ih =>
    obtain ⟨s₁, hs₁, h₁, hlen₁⟩ := h.turn b
    obtain ⟨s', hs', h', hlen⟩ := ih h₁
    refine ⟨s', by rw [filterLoop, hs₁, Option.bind_some, hs'], h', ?_⟩
    rw [hlen, hlen₁, List.length_cons]
    omega

/-- Where the checker accepts, the filter waits for the same bytes and passes all. -/
lemma filterLoop_eq {rest : List UInt8} (h : checkLoop s.minusS rest = true)
    (hpass : ∀ b ∈ rest, Passes b) :
    ∃ n, filterLoop s rest = some ⟨rest.reverse ++ s.front, n, 0⟩ := by
  induction rest generalizing s with
  | nil =>
    have hminus : s.minusS = 0 := by simpa [checkLoop] using h
    exact ⟨s.countS, by rw [filterLoop, ← hminus]; rfl⟩
  | cons b rest ih =>
    rw [List.forall_mem_cons] at hpass
    have hstep (s' : State) (hturn : Utf8Filter.turn s b = some s') (hfront : s'.front = b :: s.front)
        (h' : checkLoop s'.minusS rest = true) :
        ∃ n, filterLoop s (b :: rest) = some ⟨(b :: rest).reverse ++ s.front, n, 0⟩ := by
      obtain ⟨n, hn⟩ := ih h' hpass.2
      refine ⟨n, ?_⟩
      rw [filterLoop, hturn, Option.bind_some, hn, hfront]
      simp
    cases hminus : s.minusS with
    | zero =>
      rw [hminus, checkLoop, Bool.and_eq_true, decide_eq_true_eq] at h
      have hflush : Utf8Filter.flush s = some s.front := by
        rw [Utf8Filter.flush, if_neg (not_not.mpr hminus)]
      cases kind b with
      | high hb => exact absurd hb hpass.1.1
      | ascii hb hb' hnum htail =>
        refine hstep ⟨b :: s.front, 0, 0⟩ ?_ rfl (by simpa [hnum] using h.2)
        rw [Utf8Filter.turn, if_neg hb, if_pos hb', hflush, if_pos (hpass.1.2 hb')]
        rfl
      | lead n hb hb' hnum htail hturn =>
        exact hstep ⟨b :: s.front, n, n⟩ (by rw [hturn, hflush]; rfl) rfl
          (by simpa [hnum] using h.2)
      | tail hb hb' hnum htail hturn => exact absurd hnum h.1
    | succ k =>
      rw [hminus, checkLoop, Bool.and_eq_true, decide_eq_true_eq] at h
      have hne : s.minusS ≠ 0 := by rw [hminus]; exact k.succ_ne_zero
      cases kind b with
      | high hb => exact absurd hb hpass.1.1
      | ascii hb hb' hnum htail => exact absurd h.1 htail
      | lead n hb hb' hnum htail hturn => exact absurd h.1 htail
      | tail hb hb' hnum htail hturn =>
        refine hstep { s with front := b :: s.front, minusS := s.minusS - 1 }
          (by rw [hturn, if_pos hne]) rfl ?_
        dsimp only
        rw [hminus]
        exact h.2

/-! ### The string -/

lemma utf8Check_append_nul {str : List UInt8} (h : 0 ∉ str) (behind : List UInt8) :
    utf8Check (str ++ 0 :: behind) = checkLoop 0 str := by rw [utf8Check, cstr_append_nul h]

lemma utf8Filter_append_nul {str : List UInt8} (h : 0 ∉ str) (behind : List UInt8) :
    utf8Filter (str ++ 0 :: behind) = ((filterLoop ⟨[], 0, 0⟩ str).bind flush).map fun front =>
      front.reverse ++ 0 :: behind := by
  rw [utf8Filter, if_pos (by simp), cstr_append_nul h, List.drop_left, Option.map_bind]
  rfl

/-- The filter stays inside the string and leaves a text that the checker accepts. -/
lemma exists_filtered {str : List UInt8} (h : 0 ∉ str) :
    ∃ out, (∀ behind, utf8Filter (str ++ 0 :: behind) = some (out ++ 0 :: behind)) ∧
      out.length = str.length ∧ checkLoop 0 out = true ∧ ∀ b ∈ out, Passes b := by
  obtain ⟨s, hs, hinv, hlen⟩ := inv_start.loop str
  obtain ⟨front, hflush, hlen', hreaches, hpasses⟩ := hinv.flush
  refine ⟨front.reverse, fun behind => ?_, ?_, ?_, by simpa using hpasses⟩
  · rw [utf8Filter_append_nul h, hs, Option.bind_some, hflush]
    rfl
  · rw [List.length_reverse, hlen', hlen]
    simp
  · have hr := hreaches []
    rw [List.append_nil] at hr
    rw [hr]
    rfl

/-- A text that the checker accepts and whose bytes all pass stays as it is. -/
lemma utf8Filter_eq_self {str : List UInt8} (h : checkLoop 0 str = true) (hpass : ∀ b ∈ str, Passes b)
    (behind : List UInt8) : utf8Filter (str ++ 0 :: behind) = some (str ++ 0 :: behind) := by
  obtain ⟨n, hn⟩ := filterLoop_eq (s := ⟨[], 0, 0⟩) h hpass
  have h0 : 0 ∉ str := fun h0 => (hpass 0 h0).ne_zero rfl
  rw [utf8Filter_append_nul h0, hn]
  simp [flush]

/-- **The filter against the checker**: a string of the same length, which the checker accepts and
which a second run leaves as it is; a string that was accepted before and holds no filtered control
character and no byte above `0xF7` is not changed. -/
theorem utf8_filter_spec (str : List UInt8) (h : 0 ∉ str) :
    ∃ out, 0 ∉ out ∧ out.length = str.length ∧
      (∀ behind, utf8Filter (str ++ 0 :: behind) = some (out ++ 0 :: behind)) ∧
      (∀ behind, utf8Check (out ++ 0 :: behind) = true) ∧
      (∀ behind, utf8Filter (out ++ 0 :: behind) = some (out ++ 0 :: behind)) ∧
      (utf8Check (str ++ [0]) = true → (∀ b ∈ str, b ≤ 0x7F → kept b) → (∀ b ∈ str, b ≤ 0xF7) →
        out = str) := by
  obtain ⟨out, hout, hlen, hcheck, hpasses⟩ := exists_filtered h
  have h0 : 0 ∉ out := fun h0 => (hpasses 0 h0).ne_zero rfl
  refine ⟨out, h0, hlen, hout, fun behind => ?_, utf8Filter_eq_self hcheck hpasses, ?_⟩
  · rw [utf8Check_append_nul h0, hcheck]
  · intro hstr hkept hlow
    rw [utf8Check_append_nul h] at hstr
    have hself := utf8Filter_eq_self hstr (fun b hb => ⟨UInt8.not_lt.mpr (hlow b hb), hkept b hb⟩) []
    rw [hout, Option.some_inj] at hself
    exact List.append_cancel_right hself

theorem utf8_filter_spec_truncated : ∃ out : List UInt8, 0 ∉ out ∧ out.length = 2 ∧
    (∀ behind, utf8Filter (0x41 :: 0xC3 :: 0 :: behind) = some (out ++ 0 :: behind)) ∧
    (∀ behind, utf8Check (out ++ 0 :: behind) = true) ∧
    (∀ behind, utf8Filter (out ++ 0 :: behind) = some (out ++ 0 :: behind)) := by
  obtain ⟨out, h0, hlen, hout, hcheck, hself, -⟩ := utf8_filter_spec [0x41, 0xC3] (by simp)
  exact ⟨out, h0, hlen, hout, hcheck, hself⟩

/-- The checker takes five bytes after `0xF8` for a sequence, the filter does not. -/
theorem utf8_filter_long_sequence :
    utf8Check [0xF8, 0x80, 0x80, 0x80, 0x80, 0] = true ∧
      (∀ b ∈ ([0xF8, 0x80, 0x80, 0x80, 0x80] : List UInt8), b ≤ 0x7F → kept b) ∧
      utf8Filter [0xF8, 0x80, 0x80, 0x80, 0x80, 0] ≠ some [0xF8, 0x80, 0x80, 0x80, 0x80, 0] := by
  refine ⟨by decide, by simp, by decide⟩

end SteepSystem.Texts.Utf8Filter
