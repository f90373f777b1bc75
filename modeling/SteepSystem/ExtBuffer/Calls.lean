import SteepSystem.ExtBuffer.Structures
import SteepSystem.Lib.Runs

/-!
Every sequence of calls of the pull functions on one `EXT_PULL`: as long as no length in the data
takes a structure beyond their end, nothing is read there and every call that succeeds leaves the
cursor within them.
-/

namespace SteepSystem.ExtBuffer

open SteepSystem.Lib.Programs SteepSystem.Lib.Programs.Program SteepSystem.Lib.Runs

/-- A call of one of the functions that `ext_buffer.h` declares, `depth` being how far the
functions that call themselves go. -/
inductive Call
  | advance (size : UInt32)
  | rpcHeaderExt | int8 | uint8 | int16 | uint16 | int32 | uint32 | int64 | uint64
  | float | double | bool
  | bytes (n : UInt32)
  | guid | string | wstring | dataBlob | binary | sbinary | exbinary
  | shortArray | longArray | longlongArray | slonglongArray | binaryArray | stringArray
  | wstringArray | guidArray
  | restriction (depth : ℕ)
  | svreid | storeEntryid
  | ruleActions (depth : ℕ)
  | propval (depth : ℕ) (type : UInt16)
  | typedPropval (depth : ℕ)
  | taggedPropval (depth : ℕ)
  | longTermId | longTermIdArray | longTermIdRang | proptagArray
  | propertyName | propnameArray | propidArray
  | tpropvalArray (depth : ℕ)
  | tarraySet (depth : ℕ)
  | problemArray
  | xid (size : UInt8)
  | folderEntryid | messageEntryid
  | extRuleActions (depth : ℕ)
  | namedpropertyInformation
  | flaggedPropval (depth : ℕ) (type : UInt16)
  | propertyRow (depth : ℕ) (pcolumns : List UInt32)
  | proprowSet (depth : ℕ) (pcolumns : List UInt32)
  | sortOrder | sortorderSet | typedString
  | recipientRow (depth : ℕ) (pproptags : List UInt32)
  | openrecipientRow (depth : ℕ) (pproptags : List UInt32)
  | modifyrecipientRow (depth : ℕ) (pproptags : List UInt32)
  | readrecipientRow (depth : ℕ) (pproptags : List UInt32)
  | permissionData (depth : ℕ)
  | ruleData (depth : ℕ)
  | addressbookEntryid | oneoffEntryid | oneoffArray
  | persistdataArray (items : ℕ)
  | eidArray | systemtime | timezonestruct
  | timezonedefinition (years : ℕ → Int16)
  | appointmentrecurrencepattern | globalobjectid
  | messageContent (depth : ℕ)

def only {α : Type} (p : Pull α) : Pull Unit := do
  let _ ← p
  pure ()

/-- What a call does to the cursor. -/
def Call.pull (x : Setup) : Call → Pull Unit
  | advance size => pullAdvance size
  | rpcHeaderExt => only pullRpcHeaderExt
  | int8 => only pullInt8
  | uint8 => only pullUint8
  | int16 => only pullInt16
  | uint16 => only pullUint16
  | int32 => only pullInt32
  | uint32 => only pullUint32
  | int64 => only pullInt64
  | uint64 => only pullUint64
  | float => only pullFloat
  | double => only pullDouble
  | bool => only pullBool
  | bytes n => only (pullBytes n)
  | guid => only pullGuid
  | string => only pullString
  | wstring => only (pullWstring x)
  | dataBlob => only pullDataBlob
  | binary => only (pullBinary x)
  | sbinary => only pullSbinary
  | exbinary => only pullExbinary
  | shortArray => only pullShortArray
  | longArray => only pullLongArray
  | longlongArray => only pullLonglongArray
  | slonglongArray => only pullSlonglongArray
  | binaryArray => only (pullBinaryArray x)
  | stringArray => only pullStringArray
  | wstringArray => only (pullWstringArray x)
  | guidArray => only pullGuidArray
  | restriction depth => only (pullRestriction x depth)
  | svreid => only pullSvreid
  | storeEntryid => only pullStoreEntryid
  | ruleActions depth => only (pullRuleActions x depth)
  | propval depth type => only (pullPropval x depth type)
  | typedPropval depth => only (pullTypedPropval x depth)
  | taggedPropval depth => only (pullTaggedPropval x depth)
  | longTermId => only pullLongTermId
  | longTermIdArray => only pullLongTermIdArray
  | longTermIdRang => only pullLongTermIdRang
  | proptagArray => only pullProptagArray
  | propertyName => only (pullPropertyName x)
  | propnameArray => only (pullPropnameArray x)
  | propidArray => only pullPropidArray
  | tpropvalArray depth => only (pullTpropvalArray x depth)
  | tarraySet depth => only (pullTarraySet x depth)
  | problemArray => only pullProblemArray
  | xid size => only (pullXid size)
  | folderEntryid => only pullFolderEntryid
  | messageEntryid => only pullMessageEntryid
  | extRuleActions depth => only (pullExtRuleActions x depth)
  | namedpropertyInformation => only (pullNamedpropertyInformation x)
  | flaggedPropval depth type => only (pullFlaggedPropval x depth type)
  | propertyRow depth pcolumns => only (pullPropertyRow x depth pcolumns)
  | proprowSet depth pcolumns => only (pullProprowSet x depth pcolumns)
  | sortOrder => only pullSortOrder
  | sortorderSet => only pullSortorderSet
  | typedString => only (pullTypedString x)
  | recipientRow depth pproptags => only (pullRecipientRow x depth pproptags)
  | openrecipientRow depth pproptags => only (pullOpenrecipientRow x depth pproptags)
  | modifyrecipientRow depth pproptags => only (pullModifyrecipientRow x depth pproptags)
  | readrecipientRow depth pproptags => only (pullReadrecipientRow x depth pproptags)
  | permissionData depth => only (pullPermissionData x depth)
  | ruleData depth => only (pullRuleData x depth)
  | addressbookEntryid => only pullAddressbookEntryid
  | oneoffEntryid => only (pullOneoffEntryid x)
  | oneoffArray => only (pullOneoffArray x)
  | persistdataArray items => only (pullPersistdataArray x items)
  | eidArray => only pullEidArray
  | systemtime => only pullSystemtime
  | timezonestruct => only pullTimezonestruct
  | timezonedefinition years => only (pullTimezonedefinition x years)
  | appointmentrecurrencepattern => only (pullAppointmentrecurrencepattern x)
  | globalobjectid => only pullGlobalobjectid
  | messageContent depth => only (pullMessageContent x depth)

/-- A call, with the offsets at which its allocations succeed. -/
structure Attempt where
  call : Call
  alloc : ℕ → Bool

variable (x : Setup) (b : Input)

def Attempt.outcome (a : Attempt) (off : ℕ) : Outcome Unit :=
  { b with alloc := a.alloc }.run (a.call.pull x) off

/-- No sum of a length wraps where it is used, and no structure that the call reads ends beyond
the data. -/
def LengthsFit (off : ℕ) (a : Attempt) : Prop :=
  Admits (exec { b with alloc := a.alloc }) (Fits { b with alloc := a.alloc }) (a.call.pull x) off

/-- The call succeeds or returns an error code, and leaves the cursor where it leaves it. -/
def Step (off : ℕ) (a : Attempt) (off' : ℕ) : Prop :=
  a.outcome x b off = .ok ((), off') ∨ ∃ e, a.outcome x b off = .error (.status e, off')

/-- What a call must not do: succeed with the cursor beyond the data or further back than it
was, or read a byte that is not there. -/
structure Bounded (off : ℕ) (a : Attempt) : Prop where
  cursor : ∀ off', a.outcome x b off = .ok ((), off') → off ≤ off' ∧ off' ≤ b.size
  reads : ∀ off', a.outcome x b off ≠ .error (.outOfBounds, off')

lemma performs_string : Performs Checks pullString := .inl trivial

lemma performs_wstring : Performs Checks (pullWstring x) := by
  unfold pullWstring
  split_ifs
  · exact .inl trivial
  · exact performs_string

lemma performs_count : Performs Checks (pullCount x) := by
  unfold pullCount
  split_ifs <;> exact .inl trivial

lemma performs_alloc {α : Type} {p : Pull α} (h : Performs Checks p) :
    Performs Checks (do
      alloc
      p) :=
  .inr fun _ => h

lemma performs_as {α β : Type} {p : Pull α} {f : α → β} (h : Performs Checks p) :
    Performs Checks (pullAs p f) := performs_alloc h.bind

lemma performs_restriction (depth : ℕ) : Performs Checks (pullRestriction x depth) := by
  cases depth <;> exact .inl trivial

lemma performs_propval (depth : ℕ) (type : UInt16) :
    Performs Checks (pullPropval x depth type) := by
  cases depth with
  | zero => exact .inl trivial
  | succ depth =>
    unfold pullPropval
    cases hk : PropvalType.of type with
    | none => exact .inl trivial
    | some k =>
      cases k with
      | unspecified => exact performs_alloc (.inl trivial)
      | string => exact performs_string.bind
      | wstring => exact (performs_wstring x).bind
      | restriction => exact performs_as (performs_restriction x depth)
      | binary | object => exact performs_as (performs_count x).bind
      | _ => exact performs_as (.inl trivial)

/-- Every call checks the place of the cursor on its way. -/
lemma performs_pull (call : Call) : Performs Checks (call.pull x) := by
  cases call with
  | wstring => exact (performs_wstring x).bind
  | binary => exact (performs_count x).bind.bind
  | restriction depth => exact (performs_restriction x depth).bind
  | propval depth type => exact (performs_propval x depth type).bind
  | messageContent depth => cases depth <;> exact .inl trivial
  | persistdataArray items =>
    cases items with
    | zero => exact .inl trivial
    | succ items => exact .inr fun _ => .inl trivial
  | xid size =>
    apply Performs.bind
    unfold pullXid
    split_ifs <;> exact .inl trivial
  | flaggedPropval depth type =>
    apply Performs.bind
    unfold pullFlaggedPropval
    split_ifs <;> exact .inl trivial
  | _ => exact .inl trivial

/-- **Every call of every sequence.** From wherever a sequence of calls whose lengths fit has
left the cursor, the next such call moves it forward within the data or fails, and reads nothing
beyond them. -/
theorem bounded_of_run {attempts : List Attempt} {off : ℕ}
    (h : Run (LengthsFit x b) (Step x b) 0 attempts off) {next : Attempt}
    (hnext : LengthsFit x b off next) : Bounded x b off next := by
  have hoff : off < 2 ^ 32 := by
    refine h.invariant (I := fun off => off < 2 ^ 32) ?_ (by omega)
    rintro s a t hs ha (hok | ⟨e, herr⟩)
    · exact ((run_fits _ hs ha).1 _ _ hok).2.1
    · exact ((run_fits _ hs ha).2 _ _ herr).2
  have hrun := run_fits _ hoff hnext
  constructor
  · intro off' hok
    obtain ⟨hle, -, hsize⟩ := hrun.1 () off' hok
    exact ⟨hle, hsize (.inr (performs_pull x next.call))⟩
  · intro off' herr
    exact (hrun.2 _ _ herr).1 rfl

/-- A property name of kind `KIND_NAME` whose name is empty, after the size it is said to have. -/
def emptyName (nameSize : UInt8) : Bytes := 1 :: List.replicate 16 0 ++ [nameSize, 0, 0]

/-- Two such names, the first with the size that it has. -/
def twoNames (nameSize : UInt8) : Input where
  data := emptyName 2 ++ emptyName nameSize
  size_lt := by simp [emptyName]
  alloc _ := true

def readName : Attempt where
  call := .propertyName
  alloc _ := true

theorem bounded_of_run_names : Bounded unicodeSetup (twoNames 2) 20 readName := by
  have hfit : LengthsFit unicodeSetup (twoNames 2) 0 readName := by
    unfold LengthsFit
    decide +kernel
  have hrun : Run (LengthsFit unicodeSetup (twoNames 2)) (Step unicodeSetup (twoNames 2)) 0
      [readName] 20 := .cons hfit (.inl (by rfl)) (.nil 20)
  apply bounded_of_run unicodeSetup (twoNames 2) hrun
  unfold LengthsFit
  decide +kernel

/-- The second name is said to take four bytes where there are two; reading it succeeds and takes
the cursor to 42 in 40 bytes. -/
theorem not_bounded_of_run :
    ¬ ∀ (x : Setup) (b : Input) (attempts : List Attempt) (off : ℕ),
      Run (fun _ _ => True) (Step x b) 0 attempts off → ∀ next, Bounded x b off next := by
  intro h
  have hrun : Run (fun _ _ => True) (Step unicodeSetup (twoNames 4)) 0 [readName] 20 :=
    .cons trivial (.inl (by rfl)) (.nil 20)
  have hnext := h unicodeSetup (twoNames 4) _ _ hrun readName
  have hok : readName.outcome unicodeSetup (twoNames 4) 20 = .ok ((), 42) := by rfl
  have hle := (hnext.cursor 42 hok).2
  have hsize : (twoNames 4).size = 40 := by rfl
  omega

end SteepSystem.ExtBuffer
