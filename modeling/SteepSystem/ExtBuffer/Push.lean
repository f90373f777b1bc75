import SteepSystem.ExtBuffer.Values

/-!
The push functions of `ext_buffer.c`. What one of them does for a value is a list of primitive
pushes, some of them inside a part whose size is patched in before it afterwards; it is run
against the space of the buffer, and its encoding is what it writes when nothing goes wrong.
-/

namespace SteepSystem.ExtBuffer

open SteepSystem.Lib.Bytes

inductive Emit
  | nothing
  | fail (e : ExtErr)
  /-- There is no such value: a null pointer, one to something of another type, or a count that
  does not fit its field. -/
  | undefined
  | bytes (bs : Bytes)
  /-- A string of 16-bit units with its terminator. -/
  | units (bs : Bytes)
  | seq (a b : Emit)
  /-- `n` bytes are left out, and take the size of the rest once that is written. -/
  | sized (n : ℕ) (body : Emit)
  /-- The status is overwritten with success. -/
  | ignore (a : Emit)

inductive PushStatus
  | success
  | error (e : ExtErr)
  | undefined
  deriving DecidableEq

/-- The status, the bytes between the old offset and the new one, and whether a status other
than success has been overwritten. -/
structure Pushed where
  status : PushStatus
  bytes : Bytes
  hidden : Bool
  deriving DecidableEq

/-- `ext_buffer_push_check_overflow` adds in 32 bits; `cap` is the size that the buffer has or
can be given. -/
def pushBytes (cap off : ℕ) (bs : Bytes) : Pushed :=
  if (bs.length + off) % 2 ^ 32 ≤ cap then
    if bs.length + off ≤ cap then ⟨.success, bs, false⟩ else ⟨.undefined, [], false⟩
  else ⟨.error .bufsize, [], false⟩

def Emit.run (cap : ℕ) : Emit → ℕ → Pushed
  | nothing, _ => ⟨.success, [], false⟩
  | fail e, _ => ⟨.error e, [], false⟩
  | undefined, _ => ⟨.undefined, [], false⟩
  | bytes bs, off | units bs, off => pushBytes cap off bs
  | seq a b, off =>
    let r := a.run cap off
    if r.status = .success then
      let s := b.run cap (off + r.bytes.length)
      ⟨s.status, r.bytes ++ s.bytes, r.hidden || s.hidden⟩
    else r
  | sized n body, off =>
    let r := pushBytes cap off (List.replicate n 0)
    if r.status = .success then
      let s := body.run cap (off + n)
      if s.status = .success then ⟨.success, le n s.bytes.length ++ s.bytes, s.hidden⟩
      else ⟨s.status, r.bytes ++ s.bytes, s.hidden⟩
    else r
  | ignore a, off =>
    let r := a.run cap off
    if r.status = .undefined then r
    else ⟨.success, r.bytes, r.hidden || decide (r.status ≠ .success)⟩

/-- What is written when every push on the way succeeds. -/
def Emit.encoding : Emit → Option Bytes
  | nothing => some []
  | fail _ | undefined => none
  | bytes bs | units bs => some bs
  | seq a b => do
    let bs ← a.encoding
    let cs ← b.encoding
    pure (bs ++ cs)
  | sized n body => do
    let bs ← body.encoding
    pure (le n bs.length ++ bs)
  | ignore a => a.encoding

/-- Every part of it can be written. -/
def Emit.Whole : Emit → Prop
  | nothing | bytes _ | units _ => True
  | fail _ | undefined => False
  | seq a b => a.Whole ∧ b.Whole
  | sized _ body => body.Whole
  | ignore a => a.Whole

def Emit.size : Emit → ℕ
  | nothing | fail _ | undefined => 0
  | bytes bs | units bs => bs.length
  | seq a b => a.size + b.size
  | sized n body => n + body.size
  | ignore a => a.size

/-- With `rest` bytes left at its start, no string of 16-bit units has more bytes behind its start
than an `int` counts. -/
def Emit.Near : Emit → ℕ → Prop
  | nothing, _ | fail _, _ | undefined, _ | bytes _, _ => True
  | units _, rest => rest < 2 ^ 31
  | seq a b, rest => a.Near rest ∧ b.Near (rest - a.size)
  | sized n body, rest => body.Near (rest - n)
  | ignore a, rest => a.Near rest

instance instDecidableWhole : ∀ em : Emit, Decidable em.Whole
  | .nothing | .bytes _ | .units _ => .isTrue trivial
  | .fail _ | .undefined => .isFalse id
  | .seq a b =>
    have := instDecidableWhole a
    have := instDecidableWhole b
    inferInstanceAs (Decidable (a.Whole ∧ b.Whole))
  | .sized _ body => instDecidableWhole body
  | .ignore a => instDecidableWhole a

instance instDecidableNear : ∀ (em : Emit) rest, Decidable (em.Near rest)
  | .nothing, _ | .fail _, _ | .undefined, _ | .bytes _, _ => .isTrue trivial
  | .units _, rest => inferInstanceAs (Decidable (rest < 2 ^ 31))
  | .seq a b, rest =>
    have := instDecidableNear a rest
    have := instDecidableNear b (rest - a.size)
    inferInstanceAs (Decidable (a.Near rest ∧ b.Near (rest - a.size)))
  | .sized n body, rest => instDecidableNear body (rest - n)
  | .ignore a, rest => instDecidableNear a rest

@[simp] lemma encoding_nothing : Emit.nothing.encoding = some [] := rfl

@[simp] lemma encoding_fail (e : ExtErr) : (Emit.fail e).encoding = none := rfl

@[simp] lemma encoding_undefined : Emit.undefined.encoding = none := rfl

@[simp] lemma encoding_bytes (bs : Bytes) : (Emit.bytes bs).encoding = some bs := rfl

@[simp] lemma encoding_units (bs : Bytes) : (Emit.units bs).encoding = some bs := rfl

lemma encoding_seq {a b : Emit} {ds : Bytes} : (Emit.seq a b).encoding = some ds ↔
    ∃ bs cs, a.encoding = some bs ∧ b.encoding = some cs ∧ ds = bs ++ cs := by
  simp only [Emit.encoding]
  cases a.encoding <;> cases b.encoding <;> simp [eq_comm]

lemma encoding_sized {n : ℕ} {a : Emit} {ds : Bytes} : (Emit.sized n a).encoding = some ds ↔
    ∃ bs, a.encoding = some bs ∧ ds = le n bs.length ++ bs := by
  simp only [Emit.encoding]
  cases a.encoding <;> simp [eq_comm]

lemma whole_iff {em : Emit} : em.Whole ↔ ∃ bs, em.encoding = some bs := by
  induction em with
  | nothing => simp [Emit.Whole]
  | fail e => simp [Emit.Whole]
  | undefined => simp [Emit.Whole]
  | bytes bs | units bs => simp [Emit.Whole]
  | seq a b iha ihb =>
    rw [Emit.Whole, iha, ihb]
    constructor
    · rintro ⟨⟨bs, ha⟩, cs, hb⟩
      exact ⟨_, encoding_seq.mpr ⟨bs, cs, ha, hb, rfl⟩⟩
    · rintro ⟨ds, h⟩
      obtain ⟨bs, cs, ha, hb, -⟩ := encoding_seq.mp h
      exact ⟨⟨bs, ha⟩, cs, hb⟩
  | sized n body ih =>
    rw [Emit.Whole, ih]
    constructor
    · rintro ⟨bs, hb⟩
      exact ⟨_, encoding_sized.mpr ⟨bs, hb, rfl⟩⟩
    · rintro ⟨ds, h⟩
      obtain ⟨bs, hb, -⟩ := encoding_sized.mp h
      exact ⟨bs, hb⟩
  | ignore a ih => exact ih

lemma length_encoding {em : Emit} {bs : Bytes} (h : em.encoding = some bs) :
    bs.length = em.size := by
  induction em generalizing bs with
  | nothing =>
    cases h
    rfl
  | fail e => cases h
  | undefined => cases h
  | bytes cs | units cs =>
    cases h
    rfl
  | seq a b iha ihb =>
    obtain ⟨bs, cs, ha, hb, rfl⟩ := encoding_seq.mp h
    rw [List.length_append, iha ha, ihb hb, Emit.size]
  | sized n body ih =>
    obtain ⟨bs, hb, rfl⟩ := encoding_sized.mp h
    rw [List.length_append, length_le, ih hb, Emit.size]
  | ignore a ih => exact ih h

lemma pushBytes_of_le {cap off : ℕ} {bs : Bytes} (hcap : cap < 2 ^ 32)
    (h : off + bs.length ≤ cap) : pushBytes cap off bs = ⟨.success, bs, false⟩ := by
  unfold pushBytes
  rw [Nat.mod_eq_of_lt (by omega), if_pos (by omega), if_pos (by omega)]

lemma pushBytes_success {cap off : ℕ} {bs : Bytes}
    (h : (pushBytes cap off bs).status = .success) :
    off + bs.length ≤ cap ∧ pushBytes cap off bs = ⟨.success, bs, false⟩ := by
  unfold pushBytes at *
  split_ifs at * with h1 h2
  exact ⟨by omega, rfl⟩

/-- The offset stays within the buffer, whatever the status. -/
lemma length_run_le {cap : ℕ} (em : Emit) {off : ℕ} (hoff : off ≤ cap) :
    off + (em.run cap off).bytes.length ≤ cap := by
  have hpush : ∀ {off bs}, off ≤ cap → off + (pushBytes cap off bs).bytes.length ≤ cap := by
    intro off bs hoff
    unfold pushBytes
    split_ifs with h1 h2
    · simp only
      omega
    · simpa using hoff
    · simpa using hoff
  induction em generalizing off with
  | nothing => simpa [Emit.run] using hoff
  | fail e => simpa [Emit.run] using hoff
  | undefined => simpa [Emit.run] using hoff
  | bytes bs | units bs => exact hpush hoff
  | seq a b iha ihb =>
    have ha := iha hoff
    simp only [Emit.run]
    split_ifs
    · have hb := ihb ha
      rw [List.length_append]
      omega
    · exact ha
  | sized n body ih =>
    simp only [Emit.run]
    split_ifs with hr hs
    · obtain ⟨hle, -⟩ := pushBytes_success hr
      rw [List.length_replicate] at hle
      have hb := ih hle
      rw [List.length_append, length_le]
      omega
    · obtain ⟨hle, heq⟩ := pushBytes_success hr
      rw [List.length_replicate] at hle
      have hb := ih hle
      rw [heq, List.length_append, List.length_replicate]
      omega
    · exact hpush hoff
  | ignore a ih =>
    simp only [Emit.run]
    split_ifs <;> exact ih hoff

lemma run_of_encoding {cap : ℕ} (hcap : cap < 2 ^ 32) {em : Emit} {bs : Bytes} {off : ℕ}
    (h : em.encoding = some bs) (hle : off + bs.length ≤ cap) :
    em.run cap off = ⟨.success, bs, false⟩ := by
  induction em generalizing bs off with
  | nothing =>
    cases h
    rfl
  | fail e => cases h
  | undefined => cases h
  | bytes cs | units cs =>
    cases h
    exact pushBytes_of_le hcap hle
  | seq a b iha ihb =>
    obtain ⟨bs, cs, ha, hb, rfl⟩ := encoding_seq.mp h
    rw [List.length_append] at hle
    have hra := @iha _ off ha (by omega)
    have hrb := @ihb _ (off + bs.length) hb (by omega)
    simp [Emit.run, hra, hrb]
  | sized n body ih =>
    obtain ⟨bs, hb, rfl⟩ := encoding_sized.mp h
    rw [List.length_append, length_le] at hle
    have hleft : pushBytes cap off (List.replicate n 0) =
        ⟨.success, List.replicate n 0, false⟩ :=
      pushBytes_of_le hcap (by rw [List.length_replicate]; omega)
    have hrun := @ih _ (off + n) hb (by omega)
    simp [Emit.run, hleft, hrun]
  | ignore a ih =>
    have ha := ih h hle
    simp [Emit.run, ha]

lemma encoding_of_run {cap : ℕ} {em : Emit} {off : ℕ} (hs : (em.run cap off).status = .success)
    (hh : (em.run cap off).hidden = false) : em.encoding = some (em.run cap off).bytes := by
  induction em generalizing off with
  | nothing => rfl
  | fail e => cases hs
  | undefined => cases hs
  | bytes bs | units bs =>
    obtain ⟨-, heq⟩ := pushBytes_success hs
    simp only [Emit.run, heq, encoding_bytes, encoding_units]
  | seq a b iha ihb =>
    simp only [Emit.run] at hs hh ⊢
    split_ifs at hs hh ⊢ with ha
    · simp only [Bool.or_eq_false_iff] at hh
      exact encoding_seq.mpr ⟨_, _, iha ha hh.1, ihb hs hh.2, rfl⟩
    · exact absurd hs ha
  | sized n body ih =>
    simp only [Emit.run] at hs hh ⊢
    split_ifs at hs hh ⊢ with hr hb
    · exact encoding_sized.mpr ⟨_, ih hb hh, rfl⟩
    · exact absurd hs hb
    · exact absurd hs hr
  | ignore a ih =>
    simp only [Emit.run] at hs hh ⊢
    split_ifs at hs hh ⊢ with hu
    · rw [hu] at hs
      cases hs
    · simp only [Bool.or_eq_false_iff, decide_eq_false_iff_not, not_not] at hh
      exact ih hh.2 hh.1

/-- **A push that succeeds.** It has hidden no failure exactly if every part can be written and
all of it has room in the buffer; what it has written then is the encoding. -/
theorem hidden_eq_false_iff {cap : ℕ} (hcap : cap < 2 ^ 32) {em : Emit} {off : ℕ}
    (hoff : off ≤ cap) (hs : (em.run cap off).status = .success) :
    (em.run cap off).hidden = false ↔ em.Whole ∧ off + em.size ≤ cap := by
  rw [whole_iff]
  constructor
  · intro hh
    have henc := encoding_of_run hs hh
    have hle := length_run_le em hoff
    rw [length_encoding henc] at hle
    exact ⟨⟨_, henc⟩, hle⟩
  · rintro ⟨⟨bs, henc⟩, hle⟩
    rw [run_of_encoding hcap henc (by rw [length_encoding henc]; omega)]

end SteepSystem.ExtBuffer
