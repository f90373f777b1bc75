import SteepSystem.Ndr.Model
import SteepSystem.Lib.Programs
import SteepSystem.Lib.Runs

/-!
Sequences of calls of the `ndr_pull_*` functions on one `NDR_PULL`, the failing calls included:
the functions as programs over the operations that look at the data, with the offset that each
failure leaves behind. Offsets and sizes are numbers of 32 bits.
-/

namespace SteepSystem.Ndr.Calls

open SteepSystem.Lib.Bytes SteepSystem.Lib.Programs SteepSystem.Lib.Programs.Program
open SteepSystem.Lib.Runs

/-- The `NDR_ERR_*` codes of the pull functions. -/
inductive Status
  | bufsize | alloc | ndr64 | padding | arraySize
  deriving DecidableEq, Repr

inductive Failure
  | status (e : Status)
  | outOfBounds
  deriving DecidableEq, Repr

/-- The sizes that the alignment functions are called with. -/
inductive Size
  | one | two | three | four | five | eight
  deriving DecidableEq

def Size.toNat : Size → ℕ
  | one => 1
  | two => 2
  | three => 3
  | four => 4
  | five => 5
  | eight => 8

/-- What a call finds beside the offset: the data, the flags, and at which offsets allocations
succeed. -/
structure Input where
  data : List UInt8
  flags : Flags
  alloc : ℕ → Bool

def Input.size (b : Input) : ℕ := b.data.length

inductive PullOp
  /-- `ndr_pull_align` -/
  | align (size : Size)
  /-- The check of a size and the bytes at the offset. -/
  | bytes (n : ℕ)
  /-- The same, with an allocation in between. -/
  | copy (n : ℕ)
  /-- `ndr_pull_advance` -/
  | advance (n : ℕ)
  | tell
  /-- `ndr_pull_check_string` -/
  | checkString (count elementSize : ℕ)
  | fail (e : Status)

@[reducible] def PullOp.Res : PullOp → Type
  | align _ | advance _ | checkString _ _ => Unit
  | bytes _ | copy _ => List UInt8
  | tell => ℕ
  | fail _ => Empty

abbrev Pull := Program PullOp PullOp.Res

abbrev Outcome (α : Type) := Except (Failure × ℕ) (α × ℕ)

def stop {α : Type} (e : Status) (off : ℕ) : Outcome α := .error (.status e, off)

def Input.fetch (b : Input) (off n : ℕ) (next : ℕ) : Outcome (List UInt8) :=
  if off + n ≤ b.size then .ok ((b.data.drop off).take n, next)
  else .error (.outOfBounds, off)

/-- The bytes that `ndr_pull_check_padding` looks at are looked at up to the first that is not
zero; its index is an `int`. -/
def Input.padded (b : Input) (off next : ℕ) : Bool :=
  2 ^ 31 ≤ off ∨ ((b.data.drop off).take (next - off)).all (· == 0)

def Input.padsOutside (b : Input) (off next : ℕ) : Prop :=
  b.padded off next = true ∧ off < 2 ^ 31 ∧ off < next ∧ b.size < next

instance (b : Input) (off next : ℕ) : Decidable (b.padsOutside off next) :=
  inferInstanceAs (Decidable (_ ∧ _))

def exec (b : Input) : (o : PullOp) → ℕ → Outcome o.Res
  | .align size, off =>
    let next := roundUp off (b.flags.alignment size.toNat)
    if b.flags.noAlign then
      if b.size < off then stop .bufsize off else .ok ((), off)
    else if b.flags.padCheck ∧ b.padsOutside off next then .error (.outOfBounds, off)
    else if b.flags.padCheck ∧ ¬ b.padded off next then stop .padding off
    else if b.size < next % 2 ^ 32 then stop .bufsize (next % 2 ^ 32)
    else .ok ((), next % 2 ^ 32)
  | .bytes n, off =>
    if b.size < n ∨ b.size < (off + n) % 2 ^ 32 then stop .bufsize off
    else b.fetch off n ((off + n) % 2 ^ 32)
  | .copy n, off =>
    if b.size < n ∨ b.size < (off + n) % 2 ^ 32 then stop .bufsize off
    else if ¬ b.alloc off then stop .alloc off
    else b.fetch off n ((off + n) % 2 ^ 32)
  | .advance n, off =>
    let off := (off + n) % 2 ^ 32
    if b.size < off then stop .bufsize off else .ok ((), off)
  | .tell, off => .ok (off, off)
  | .checkString count elementSize, off =>
    let last := (off + (count + 2 ^ 32 - 1) % 2 ^ 32 * elementSize) % 2 ^ 32
    if b.size < last then stop .bufsize last
    else if b.size < elementSize ∨ b.size < (last + elementSize) % 2 ^ 32 then stop .bufsize last
    else if ((b.data.drop last).take elementSize).any (· != 0) then stop .arraySize off
    else if last + elementSize ≤ b.size then .ok ((), off)
    else .error (.outOfBounds, off)
  | .fail e, off => stop e off

def perform (o : PullOp) : Pull o.Res := .op o pure

/-! ### The functions -/

section Functions

variable (flags : Flags)

def pullUnionAlign (size : Size) : Pull Unit :=
  if flags.ndr64 then perform (.align size) else pure ()

/-- The same body as `ndr_pull_union_align`. -/
def pullTrailerAlign (size : Size) : Pull Unit := pullUnionAlign flags size

def pullString (inbytes : ℕ) : Pull (List UInt8) :=
  if inbytes = 0 then pure [] else perform (.bytes inbytes)

def pullUint8 : Pull UInt8 := do
  let b ← perform (.bytes 1)
  pure (UInt8.ofNat (ofLE b))

def pullInt8 : Pull Int8 := UInt8.toInt8 <$> pullUint8

def pullUint16 : Pull UInt16 := do
  perform (.align .two)
  let b ← perform (.bytes 2)
  pure (UInt16.ofNat (flags.value b))

def pullInt16 : Pull Int16 := UInt16.toInt16 <$> pullUint16 flags

def pullUint32 : Pull UInt32 := do
  perform (.align .four)
  let b ← perform (.bytes 4)
  pure (UInt32.ofNat (flags.value b))

def pullInt32 : Pull Int32 := UInt32.toInt32 <$> pullUint32 flags

def pullUint64 : Pull UInt64 := do
  perform (.align .eight)
  let b ← perform (.bytes 8)
  pure (UInt64.ofNat (flags.ofHalves b))

def pullInt64 : Pull Int64 := UInt64.toInt64 <$> pullUint64 flags

def fail {α : Type} (e : Status) : Pull α := .op (.fail e) fun r => r.elim

def pullLong : Pull Int32 :=
  if flags.ndr64 then do
    let v64 ← pullInt64 flags
    if v64 = v64.toInt32.toInt64 then pure v64.toInt32 else fail .ndr64
  else pullInt32 flags

def pullUlong : Pull UInt32 :=
  if flags.ndr64 then do
    let v64 ← pullUint64 flags
    if v64 = v64.toUInt32.toUInt64 then pure v64.toUInt32 else fail .ndr64
  else pullUint32 flags

def pullGuid : Pull (UInt32 × UInt16 × UInt16 × List UInt8 × List UInt8) := do
  perform (.align .four)
  let timeLow ← pullUint32 flags
  let timeMid ← pullUint16 flags
  let timeHiAndVersion ← pullUint16 flags
  let clockSeq ← perform (.bytes 2)
  let node ← perform (.bytes 6)
  pullTrailerAlign flags .four
  pure (timeLow, timeMid, timeHiAndVersion, clockSeq, node)

def pullSyntaxId : Pull ((UInt32 × UInt16 × UInt16 × List UInt8 × List UInt8) × UInt32) := do
  perform (.align .four)
  let uuid ← pullGuid flags
  let version ← pullUint32 flags
  pullTrailerAlign flags .four
  pure (uuid, version)

def pullContextHandle : Pull (UInt32 × UInt32 × UInt16 × UInt16 × List UInt8 × List UInt8) := do
  perform (.align .four)
  let handleType ← pullUint32 flags
  let guid ← pullGuid flags
  pullTrailerAlign flags .four
  pure (handleType, guid)

/-- `pndr->data_size - pndr->offset` -/
def left (size off : ℕ) : ℕ := (size + 2 ^ 32 - off) % 2 ^ 32

/-- The padding up to a multiple of `n`, as far as there are data. -/
def pullPad (size n : ℕ) : Pull (List UInt8) := do
  let off ← perform .tell
  perform (.copy (min (ndrAlignSize off n) (left size off)))

/-- The flags for padding are looked at in this order. -/
def pullDataBlob (size : ℕ) : Pull (List UInt8) :=
  if flags.remaining then do
    let off ← perform .tell
    perform (.copy (left size off))
  else if flags.align2 then pullPad size 2
  else if flags.align4 then pullPad size 4
  else if flags.align8 then pullPad size 8
  else do
    let length ← pullUint32 flags
    perform (.copy length.toNat)

end Functions

/-- A call of one of the functions that `ndr.h` declares; what `*v` held before goes with
`ndr_pull_generic_ptr`. -/
inductive Call
  | advance (size : UInt32)
  | align (size : Size) | unionAlign (size : Size) | trailerAlign (size : Size)
  | string (inbytes : UInt32)
  | int8 | uint8 | int16 | uint16 | int32 | uint32 | int64 | uint64 | long | ulong
  | arrayUint8 (n : UInt32)
  | guid | syntaxId | dataBlob
  | checkString (count elementSize : UInt32)
  | genericPtr (v : UInt32)
  | contextHandle

def only {α : Type} (p : Pull α) : Pull Unit := do
  let _ ← p
  pure ()

/-- What `ndr_pull_ulong` has put in `*v`, whether or not it then fits in it. -/
def pullPtr (flags : Flags) : Pull UInt32 :=
  if flags.ndr64 then UInt64.toUInt32 <$> pullUint64 flags else pullUint32 flags

/-- What a call asks of the data; for `ndr_pull_generic_ptr`, the number that it pulls. -/
def Call.pull (b : Input) : Call → Pull Unit
  | advance size => perform (.advance size.toNat)
  | align size => perform (.align size)
  | unionAlign size => pullUnionAlign b.flags size
  | trailerAlign size => pullTrailerAlign b.flags size
  | string inbytes => only (pullString inbytes.toNat)
  | int8 => only pullInt8
  | uint8 => only pullUint8
  | int16 => only (pullInt16 b.flags)
  | uint16 => only (pullUint16 b.flags)
  | int32 => only (pullInt32 b.flags)
  | uint32 => only (pullUint32 b.flags)
  | int64 => only (pullInt64 b.flags)
  | uint64 => only (pullUint64 b.flags)
  | long => only (pullLong b.flags)
  | ulong => only (pullUlong b.flags)
  | arrayUint8 n => only (perform (.bytes n.toNat))
  | guid => only (pullGuid b.flags)
  | syntaxId => only (pullSyntaxId b.flags)
  | dataBlob => only (pullDataBlob b.flags b.size)
  | checkString count elementSize => perform (.checkString count.toNat elementSize.toNat)
  | genericPtr _ => only (pullPtr b.flags)
  | contextHandle => only (pullContextHandle b.flags)

/-- The place in the data, and the number of pointers. -/
structure Cursor where
  offset : ℕ
  ptrCount : UInt32
  deriving DecidableEq

/-- The end of a program as the end of a call, which leaves the number of pointers. -/
def finish (s : Cursor) : Outcome Unit → Except (Failure × Cursor) Cursor
  | .ok (_, off) => .ok ⟨off, s.ptrCount⟩
  | .error (e, off) => .error (e, ⟨off, s.ptrCount⟩)

/-- What a call returns and leaves. `ndr_pull_generic_ptr` drops the status of what it pulls: it
looks at `*v`, which is as it was if there was nothing to pull, and returns success. -/
def Call.outcome (b : Input) (c : Call) (s : Cursor) : Except (Failure × Cursor) Cursor :=
  match c with
  | .genericPtr old =>
    match run (exec b) (pullPtr b.flags) s.offset with
    | .ok (v, off) => .ok ⟨off, if v ≠ 0 then s.ptrCount + 1 else s.ptrCount⟩
    | .error (.status _, off) => .ok ⟨off, if old ≠ 0 then s.ptrCount + 1 else s.ptrCount⟩
    | .error (.outOfBounds, off) => .error (.outOfBounds, ⟨off, s.ptrCount⟩)
  | c => finish s (run (exec b) (c.pull b) s.offset)

/-! ### What the calls need -/

/-- No sum wraps where it is used, and the padding that is looked at ends in the data or has a
byte other than zero. -/
def Fits (b : Input) : PullOp → ℕ → Prop
  | .align size, off => b.flags.noAlign = false →
      roundUp off (b.flags.alignment size.toNat) < 2 ^ 32 ∧
        (b.flags.padCheck = true →
          ¬ b.padsOutside off (roundUp off (b.flags.alignment size.toNat)))
  | .bytes n, off | .copy n, off => n ≤ b.size → off + n < 2 ^ 32
  | .advance n, off => off + n < 2 ^ 32
  | .checkString count elementSize, off =>
      1 ≤ count ∧ count < 2 ^ 32 ∧ off + (count - 1) * elementSize < 2 ^ 32 ∧
        (off + (count - 1) * elementSize ≤ b.size → elementSize ≤ b.size →
          off + (count - 1) * elementSize + elementSize < 2 ^ 32)
  | .tell, _ | .fail _, _ => True

instance decidableFits (b : Input) : ∀ (o : PullOp) (off : ℕ), Decidable (Fits b o off)
  | .align _, _ => inferInstanceAs (Decidable (_ → _))
  | .bytes _, _ => inferInstanceAs (Decidable (_ → _))
  | .copy _, _ => inferInstanceAs (Decidable (_ → _))
  | .advance _, _ => inferInstanceAs (Decidable (_ < _))
  | .checkString _ _, _ => inferInstanceAs (Decidable (_ ∧ _))
  | .tell, _ => .isTrue trivial
  | .fail _, _ => .isTrue trivial

/-- The bytes that an operation takes are in the data. -/
def HasBytes (b : Input) : PullOp → ℕ → Prop
  | .bytes n, off | .copy n, off | .advance n, off => off + n ≤ b.size
  | .checkString count elementSize, off => off + count * elementSize ≤ b.size
  | .align _, off => off ≤ b.size
  | .tell, _ | .fail _, _ => True

/-- The operations that compare the offset with the size. -/
def Checks : PullOp → Prop
  | .tell | .fail _ => False
  | _ => True

lemma le_roundUp {off n : ℕ} (hn : 0 < n) : off ≤ roundUp off n := by
  have h := Nat.div_add_mod (off + (n - 1)) n
  have hlt := Nat.mod_lt (off + (n - 1)) hn
  unfold roundUp
  rw [mul_comm]
  omega

lemma alignment_pos (flags : Flags) (size : Size) : 0 < flags.alignment size.toNat := by
  unfold Flags.alignment
  cases size <;> simp [Size.toNat] <;> split_ifs <;> norm_num

lemma fetch_spec {b : Input} {off n next : ℕ} (h : off + n ≤ b.size) :
    b.fetch off n next = .ok ((b.data.drop off).take n, next) := if_pos h

/-- The check that a read makes first. -/
lemma fits_read {b : Input} {off n : ℕ} (h : n ≤ b.size → off + n < 2 ^ 32)
    (hchk : ¬ (b.size < n ∨ b.size < (off + n) % 2 ^ 32)) :
    off + n ≤ b.size ∧ (off + n) % 2 ^ 32 = off + n := by
  rw [not_or, not_lt, not_lt] at hchk
  have hmod := Nat.mod_eq_of_lt (h hchk.1)
  rw [hmod] at hchk
  exact ⟨hchk.2, hmod⟩

/-- An operation that fits succeeds with its bytes in the data and the offset there, or it
returns a code. -/
lemma exec_fits {b : Input} (o : PullOp) {off : ℕ} (h : Fits b o off) :
    (∀ r off', exec b o off = .ok (r, off') →
      HasBytes b o off ∧ (off ≤ b.size ∨ Checks o → off' ≤ b.size)) ∧
    ∀ off', exec b o off ≠ .error (.outOfBounds, off') := by
  cases o with
  | align size =>
    have hle := @le_roundUp off _ (alignment_pos b.flags size)
    simp only [exec, stop, HasBytes]
    by_cases hno : b.flags.noAlign = true
    · rw [if_pos hno]
      split_ifs with hlt
      · exact ⟨nofun, by simp⟩
      · refine ⟨?_, nofun⟩
        rintro r off' heq
        cases heq
        exact ⟨not_lt.1 hlt, fun _ => not_lt.1 hlt⟩
    · obtain ⟨hwrap, hpad⟩ := h (by simpa using hno)
      have hin : ¬ (b.flags.padCheck = true ∧
          b.padsOutside off (roundUp off (b.flags.alignment size.toNat))) :=
        fun hand => hpad hand.1 hand.2
      rw [if_neg hno, if_neg hin, Nat.mod_eq_of_lt hwrap]
      split_ifs with hzero hlt
      · exact ⟨nofun, by simp⟩
      · exact ⟨nofun, by simp⟩
      · refine ⟨?_, nofun⟩
        rintro r off' heq
        cases heq
        exact ⟨hle.trans (not_lt.1 hlt), fun _ => not_lt.1 hlt⟩
  | bytes n =>
    simp only [exec, stop, HasBytes]
    split_ifs with hchk
    · exact ⟨nofun, by simp⟩
    · obtain ⟨hle, hmod⟩ := fits_read h hchk
      rw [hmod, fetch_spec hle]
      refine ⟨?_, nofun⟩
      rintro r off' heq
      cases heq
      exact ⟨hle, fun _ => hle⟩
  | copy n =>
    simp only [exec, stop, HasBytes]
    split_ifs with hchk halloc
    · exact ⟨nofun, by simp⟩
    · obtain ⟨hle, hmod⟩ := fits_read h hchk
      rw [hmod, fetch_spec hle]
      refine ⟨?_, nofun⟩
      rintro r off' heq
      cases heq
      exact ⟨hle, fun _ => hle⟩
    · exact ⟨nofun, by simp⟩
  | advance n =>
    simp only [exec, stop, HasBytes]
    rw [Nat.mod_eq_of_lt h]
    split_ifs with hlt
    · exact ⟨nofun, by simp⟩
    · refine ⟨?_, nofun⟩
      rintro r off' heq
      cases heq
      exact ⟨not_lt.1 hlt, fun _ => not_lt.1 hlt⟩
  | tell =>
    refine ⟨?_, nofun⟩
    rintro r off' heq
    cases heq
    exact ⟨trivial, fun h => h.resolve_right id⟩
  | checkString count elementSize =>
    obtain ⟨h1, h32, hlast, hend⟩ := h
    have hcount : (count + 2 ^ 32 - 1) % 2 ^ 32 = count - 1 := by omega
    have hmul : off + count * elementSize = off + (count - 1) * elementSize + elementSize := by
      obtain ⟨k, rfl⟩ : ∃ k, count = k + 1 := ⟨count - 1, by omega⟩
      rw [Nat.add_sub_cancel]
      ring
    simp only [exec, stop, HasBytes]
    rw [hcount, Nat.mod_eq_of_lt hlast]
    split_ifs with hlt hchk hzero hin
    · exact ⟨nofun, by simp⟩
    · exact ⟨nofun, by simp⟩
    · exact ⟨nofun, by simp⟩
    · refine ⟨?_, nofun⟩
      rintro r off' heq
      cases heq
      exact ⟨hmul.trans_le hin, fun _ => by omega⟩
    · obtain ⟨hle, -⟩ := fits_read (fun h => hend (not_lt.1 hlt) h) hchk
      exact absurd hle hin
  | fail e => exact ⟨nofun, by simp [exec, stop]⟩

/-! ### Runs -/

/-- A call with the flags at the time, and the offsets at which its allocations succeed. -/
structure Attempt where
  call : Call
  flags : Flags
  alloc : ℕ → Bool

def Attempt.input (data : List UInt8) (a : Attempt) : Input := ⟨data, a.flags, a.alloc⟩

def Attempt.outcome (data : List UInt8) (a : Attempt) (s : Cursor) :
    Except (Failure × Cursor) Cursor := a.call.outcome (a.input data) s

/-- The calls that return success without a look at the offset. -/
def Attempt.Idle (a : Attempt) : Prop :=
  match a.call with
  | .unionAlign _ | .trailerAlign _ => a.flags.ndr64 = false
  | .string inbytes => inbytes = 0
  | _ => False

/-- The call can go right: the operations that it performs fit, a call that does not look at the
offset finds it in the data, and `ndr_pull_generic_ptr` finds the bytes of its number. -/
structure Sized (data : List UInt8) (s : Cursor) (a : Attempt) : Prop where
  fits : Admits (exec (a.input data)) (Fits (a.input data)) (a.call.pull (a.input data)) s.offset
  idle : a.Idle → s.offset ≤ data.length
  pointer : ∀ old, a.call = .genericPtr old →
    ∃ v off, run (exec (a.input data)) (pullPtr a.flags) s.offset = .ok (v, off)

/-- The call returns success or a code. -/
def Step (data : List UInt8) (s : Cursor) (a : Attempt) (s' : Cursor) : Prop :=
  a.outcome data s = .ok s' ∨ ∃ e, a.outcome data s = .error (.status e, s')

/-- What a call owes: success leaves the offset in the data, no byte beyond them is read, and
success means that everything the call pulled was there. -/
structure Bounded (data : List UInt8) (s : Cursor) (a : Attempt) : Prop where
  offset : ∀ s', a.outcome data s = .ok s' → s'.offset ≤ data.length
  reads : ∀ s', a.outcome data s ≠ .error (.outOfBounds, s')
  missing : ∀ s', a.outcome data s = .ok s' →
    (∃ off, run (exec (a.input data)) (a.call.pull (a.input data)) s.offset = .ok ((), off)) ∧
      Admits (exec (a.input data)) (HasBytes (a.input data)) (a.call.pull (a.input data)) s.offset

/-- A call that is not idle looks at the offset on its way. -/
lemma performs_pull {data : List UInt8} {a : Attempt} (h : ¬ a.Idle) :
    Performs Checks (a.call.pull (a.input data)) := by
  obtain ⟨call, flags, alloc⟩ := a
  cases call with
  | unionAlign size =>
    have hflag : flags.ndr64 = true := by simpa [Attempt.Idle] using h
    simp only [Call.pull, pullUnionAlign, Attempt.input, hflag, if_true]
    exact .inl trivial
  | trailerAlign size =>
    have hflag : flags.ndr64 = true := by simpa [Attempt.Idle] using h
    simp only [Call.pull, pullTrailerAlign, pullUnionAlign, Attempt.input, hflag, if_true]
    exact .inl trivial
  | string inbytes =>
    have hn : inbytes.toNat ≠ 0 := fun hzero => h (UInt32.toNat_inj.1 hzero)
    simp only [Call.pull, pullString, if_neg hn]
    exact .inl trivial
  | long =>
    apply Performs.bind
    unfold pullLong
    split_ifs <;> exact .inl trivial
  | ulong =>
    apply Performs.bind
    unfold pullUlong
    split_ifs <;> exact .inl trivial
  | genericPtr old =>
    apply Performs.bind
    unfold pullPtr
    split_ifs <;> exact .inl trivial
  | dataBlob =>
    apply Performs.bind
    unfold pullDataBlob pullPad
    split_ifs
    · exact .inr fun _ => .inl trivial
    · exact .inr fun _ => .inl trivial
    · exact .inr fun _ => .inl trivial
    · exact .inr fun _ => .inl trivial
    · exact .inl trivial
  | _ => exact .inl trivial

/-- What the operations that fit do to a call that ends with a value or a failure. -/
lemma run_fits {b : Input} {p : Pull Unit} {off : ℕ} (h : Admits (exec b) (Fits b) p off)
    (hstart : off ≤ b.size ∨ Performs Checks p) :
    (∀ off', run (exec b) p off = .ok ((), off') →
      off' ≤ b.size ∧ Admits (exec b) (HasBytes b) p off) ∧
    ∀ off', run (exec b) p off ≠ .error (.outOfBounds, off') := by
  have hkeep : ∀ o s r t, True → Fits b o s → exec b o s = .ok (r, t) →
      s ≤ b.size ∨ Checks o → t ≤ b.size :=
    fun o s r t _ hadm hexec => ((exec_fits o hadm).1 r t hexec).2
  refine ⟨fun off' hrun => ⟨?_, ?_⟩, fun off' hrun => ?_⟩
  · exact run_establishes (fun _ _ _ _ _ _ _ => trivial) hkeep p trivial h hrun hstart
  · exact run_ok_admits (fun o s r t hadm hexec => ((exec_fits o hadm).1 r t hexec).1) p h hrun
  · have hrule := run_rule (I := fun _ => True) (R := fun _ _ => True)
      (E := fun _ (e : Failure × ℕ) => e.1 ≠ .outOfBounds) (fun _ => trivial)
      (fun _ _ => trivial) (fun _ he => he) (fun _ _ _ _ _ _ _ => ⟨trivial, trivial⟩)
      (fun o s e _ hadm hexec hout => (exec_fits o hadm).2 e.2 (by rw [hexec, ← hout])) p trivial h
    exact hrule.2 _ hrun rfl

/-- A call that is not `ndr_pull_generic_ptr` returns what its program ends with. -/
lemma outcome_eq {b : Input} {c : Call} (h : ∀ old, c ≠ .genericPtr old) (s : Cursor) :
    c.outcome b s = finish s (run (exec b) (c.pull b) s.offset) := by
  cases c with
  | genericPtr old => exact absurd rfl (h old)
  | _ => rfl

/-- A call that can go right does. -/
lemma Sized.bounded {data : List UInt8} {s : Cursor} {a : Attempt} (h : Sized data s a) :
    Bounded data s a := by
  have hstart : s.offset ≤ (a.input data).size ∨
      Performs Checks (a.call.pull (a.input data)) := by
    by_cases hidle : a.Idle
    · exact .inl (h.idle hidle)
    · exact .inr (performs_pull hidle)
  obtain ⟨hok, hout⟩ := run_fits h.fits hstart
  by_cases hptr : ∃ old, a.call = .genericPtr old
  · obtain ⟨old, hold⟩ := hptr
    obtain ⟨v, off, hrun⟩ := h.pointer old hold
    have hunit : run (exec (a.input data)) (a.call.pull (a.input data)) s.offset =
        .ok ((), off) := by
      have hflags : (a.input data).flags = a.flags := rfl
      rw [hold, Call.pull, only, run_bind, hflags, hrun]
      rfl
    have houtcome : a.outcome data s =
        .ok ⟨off, if v ≠ 0 then s.ptrCount + 1 else s.ptrCount⟩ := by
      rw [Attempt.outcome, hold]
      simp only [Call.outcome, Attempt.input] at hrun ⊢
      rw [hrun]
    refine ⟨fun s' heq => ?_, fun s' heq => ?_, fun s' _ => ⟨⟨off, hunit⟩, (hok off hunit).2⟩⟩
    · rw [houtcome] at heq
      cases heq
      exact (hok off hunit).1
    · rw [houtcome] at heq
      cases heq
  · have houtcome : a.outcome data s =
        finish s (run (exec (a.input data)) (a.call.pull (a.input data)) s.offset) :=
      outcome_eq (fun old hold => hptr ⟨old, hold⟩) s
    cases hrun : run (exec (a.input data)) (a.call.pull (a.input data)) s.offset with
    | error f =>
      rw [hrun] at houtcome
      refine ⟨fun s' heq => ?_, fun s' heq => ?_, fun s' heq => ?_⟩
      · cases houtcome.symm.trans heq
      · have herr := houtcome.symm.trans heq
        simp only [finish, Except.error.injEq, Prod.mk.injEq] at herr
        refine hout f.2 ?_
        rw [hrun, ← herr.1]
      · cases houtcome.symm.trans heq
    | ok r =>
      rw [hrun] at houtcome
      refine ⟨fun s' heq => ?_, fun s' heq => ?_, fun s' _ => ⟨⟨r.2, hrun⟩, (hok r.2 hrun).2⟩⟩
      · cases houtcome.symm.trans heq
        exact (hok r.2 hrun).1
      · cases houtcome.symm.trans heq

/-- In a sequence of calls that can go right, from a new `NDR_PULL` on and whatever some of them
return, every call and every next one is as it should be. -/
theorem pulls_bounded (data : List UInt8) (attempts : List Attempt) (s : Cursor)
    (h : Run (Sized data) (Step data) ⟨0, 0⟩ attempts s) :
    (∀ before a after, attempts = before ++ a :: after →
      ∃ t, Run (Sized data) (Step data) ⟨0, 0⟩ before t ∧ Bounded data t a) ∧
    ∀ next, Sized data s next → Bounded data s next := by
  refine ⟨fun before a after heq => ?_, fun next hnext => hnext.bounded⟩
  subst heq
  obtain ⟨t, hrun, hsized⟩ := h.admitted
  exact ⟨t, hrun, hsized.bounded⟩

def plainFlags : Flags := {}

def readPtr : Attempt := ⟨.genericPtr 1, plainFlags, fun _ => true⟩

/-- A pointer pulled from four bytes. -/
theorem pulls_bounded_ptr :
    (∀ before a after, [readPtr] = before ++ a :: after →
      ∃ t, Run (Sized [4, 0, 2, 0]) (Step [4, 0, 2, 0]) ⟨0, 0⟩ before t ∧
        Bounded [4, 0, 2, 0] t a) ∧
    ∀ next, Sized [4, 0, 2, 0] ⟨4, 1⟩ next → Bounded [4, 0, 2, 0] ⟨4, 1⟩ next := by
  have hsized : Sized [4, 0, 2, 0] ⟨0, 0⟩ readPtr :=
    ⟨by decide +kernel, fun h => h.elim, fun old _ => ⟨131076, 4, by decide +kernel⟩⟩
  exact pulls_bounded _ _ _ (.cons hsized (.inl (by decide +kernel)) (.nil _))

/-- Without any data the pull of a pointer succeeds, and counts one by what was there before. -/
theorem genericPtr_empty : readPtr.outcome [] ⟨0, 0⟩ = .ok ⟨0, 1⟩ ∧ ¬ Bounded [] ⟨0, 0⟩ readPtr := by
  have hok : readPtr.outcome [] ⟨0, 0⟩ = .ok ⟨0, 1⟩ := by decide +kernel
  refine ⟨hok, fun h => ?_⟩
  obtain ⟨⟨off, hrun⟩, -⟩ := h.missing _ hok
  have hfail : run (exec (readPtr.input [])) (readPtr.call.pull (readPtr.input [])) 0 =
      .error (.status .bufsize, 0) := by decide +kernel
  cases hfail.symm.trans hrun

end SteepSystem.Ndr.Calls
