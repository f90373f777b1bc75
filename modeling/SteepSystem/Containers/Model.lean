import Mathlib.Tactic
import SteepSystem.Lib.Growable

/-!
The growable containers of `mapi_lib`: `TPROPVAL_ARRAY`, `TARRAY_SET`, `PROPTAG_ARRAY`,
`ATTACHMENT_LIST`, the subfolders of `FOLDER_CONTENT` and the groups of `PROPERTY_GROUPINFO`. No
capacity is stored; each append works it out from the count. A copied value is the value itself;
whether an allocation or a copy succeeds is given with the call. An access outside the block has
no result.
-/

namespace SteepSystem.Containers

open SteepSystem.Lib.Growable

/-- What tells the containers apart: the elements that a block grows by, the widths of the count
and of the variable for the new size, the count from which appends are refused, and the size of an
element in bytes, as it is and as the reallocation takes it. -/
structure Kind where
  unit : ℕ
  countBits : ℕ
  varBits : ℕ
  limit : Option ℕ
  slot : ℕ
  regrown : ℕ

inductive Container
  | tpropvalArray
  | tarraySet
  | proptagArray
  | attachmentList
  | folderContent
  | propertyGroupinfo
deriving DecidableEq

/-- With pointers of eight bytes; a `FOLDER_CONTENT` has 48 bytes, but its block is reallocated
with the size of a pointer. -/
def Container.kind : Container → Kind
  | .tpropvalArray => ⟨100, 16, 32, none, 16, 16⟩
  | .tarraySet => ⟨100, 32, 16, some 0xFF00, 8, 8⟩
  | .proptagArray => ⟨100, 16, 32, none, 4, 4⟩
  | .attachmentList => ⟨20, 16, 16, some 0x8000, 8, 8⟩
  | .folderContent => ⟨10, 32, 32, none, 48, 8⟩
  | .propertyGroupinfo => ⟨20, 32, 32, none, 16, 16⟩

variable {α : Type*}

/-- The elements to reallocate for, when the block is full. -/
def Kind.newSize (k : Kind) (count : ℕ) : Option ℕ :=
  let size := (count / k.unit + 1) * k.unit % 2 ^ k.varBits
  if (count + 1) % 2 ^ 32 ≥ size then some ((size + k.unit) % 2 ^ k.varBits) else none

/-- The guard at the head of an append, where there is one. -/
def Kind.refuses (k : Kind) (count : ℕ) : Bool := k.limit.any fun n => n ≤ count

/-- The element written behind the others; without a value the count stays. -/
def Kind.put (k : Kind) (a : Arr α) (x : Option α) : Option (Bool × Arr α) := do
  let a ← a.write a.count x
  match x with
  | some _ => some (true, { a with count := (a.count + 1) % 2 ^ k.countBits })
  | none => some (false, a)

/-- The append of each container. -/
def Kind.append (k : Kind) (alloc : Bool) (a : Arr α) (x : Option α) : Option (Bool × Arr α) :=
  if k.refuses a.count then some (false, a)
  else match k.newSize a.count with
    | none => k.put a x
    | some size =>
      if alloc then k.put (a.regrow (size * k.regrown / k.slot)) x else some (false, a)

/-- What `propval_dup` returns: a copy, nothing for want of memory, nothing for no value. -/
inductive Copy
  | made
  | failed
  | null
deriving DecidableEq

/-- `tpropval_array_append` -/
def tpropvalArrayAppend (alloc : Bool) (copy : Copy) (a : Arr α) (x : α) :
    Option (Bool × Arr α) :=
  match copy with
  | .null => some (true, a)
  | .made => Container.tpropvalArray.kind.append alloc a (some x)
  | .failed => Container.tpropvalArray.kind.append alloc a none

section Keys

variable (key : α → UInt32)

/-- `tpropval_array_get_propval` -/
def getPropval (a : Arr α) (tag : UInt32) : Option (Option α) := do
  let xs ← a.elems
  return xs.find? (key · = tag)

/-- `tpropval_array_set_propval` -/
def setPropval (alloc : Bool) (copy : Copy) (a : Arr α) (x : α) : Option (Bool × Arr α) := do
  let xs ← a.elems
  match xs.findIdx? (key · = key x) with
  | some i =>
    match copy with
    | .made => return (true, ← a.write i (some x))
    | _ => some (false, a)
  | none => tpropvalArrayAppend alloc copy a x

/-- `proptag_array_append` -/
def proptagArrayAppend (alloc : Bool) (a : Arr α) (x : α) : Option (Bool × Arr α) := do
  let xs ← a.elems
  if xs.any (key · = key x) then some (true, a)
  else Container.proptagArray.kind.append alloc a (some x)

/-- One element less, and the gap closed unless it was the last one. -/
def removeSlot (a : Arr α) (i : ℕ) : Option (Arr α) :=
  let a := { a with count := a.count - 1 }
  if i < a.count then a.closeGap i else some a

/-- `tpropval_array_remove_propval`, `proptag_array_remove` -/
def removeKey (a : Arr α) (tag : UInt32) : Option (Arr α) := do
  let xs ← a.elems
  match xs.findIdx? (key · = tag) with
  | some i => removeSlot a i
  | none => some a

end Keys

/-- `tarray_set_remove`, `attachment_list_remove` -/
def removeAt (a : Arr α) (i : ℕ) : Option (Arr α) :=
  if i ≥ a.count then some a else removeSlot a i

/-- The elements appended to a copy one after another, up to the first that fails. -/
def dupLoop (step : ℕ → Arr α → α → Option (Bool × Arr α)) :
    ℕ → Arr α → List α → Option (Option (Arr α))
  | _, a, [] => some (some a)
  | i, a, x :: xs => do
    let (ok, a) ← step i a x
    if ok then dupLoop step (i + 1) a xs else some none

/-- `tpropval_array_dup` -/
def tpropvalArrayDup (init : Bool) (alloc copied : ℕ → Bool) (a : Arr α) :
    Option (Option (Arr α)) := do
  let xs ← a.elems
  if init then
    dupLoop (fun i => tpropvalArrayAppend (alloc i) (if copied i then .made else .failed)) 0
      (Arr.empty Container.tpropvalArray.kind.unit) xs
  else some none

/-- `tarray_set_dup`, `attachment_list_dup`: each element is copied before it is appended. -/
def listDup (k : Kind) (init : Bool) (alloc copied : ℕ → Bool) (a : Arr α) :
    Option (Option (Arr α)) := do
  let xs ← a.elems
  if init then
    dupLoop (fun i a x => if copied i then k.append (alloc i) a (some x) else some (false, a)) 0
      (Arr.empty k.unit) xs
  else some none

/-- `proptag_array_dup_internal` -/
def proptagArrayDup (init : Bool) (a : Arr α) : Option (Option (Arr α)) := do
  let xs ← a.elems
  let k := Container.proptagArray.kind
  if init then
    some (some (({ block := xs.map some, count := a.count } : Arr α).regrow
      ((a.count / k.unit + 1) * k.unit % 2 ^ k.varBits)))
  else some none

/-- The calls; `ok` flags say which allocations and copies succeed. -/
inductive Op (α : Type*)
  | append (alloc : Bool) (x : α)
  | set (alloc : Bool) (copy : Copy) (x : α)
  | appendTag (alloc : Bool) (x : α)
  | removeKey (tag : UInt32)
  | removeAt (i : ℕ)
  | clear
  | dup (init : Bool) (alloc copied : ℕ → Bool)

/-- The calls that a container has. -/
def Container.Offers : Container → Op α → Prop
  | .tpropvalArray, .set .. | .tpropvalArray, .removeKey _ | .tpropvalArray, .dup .. => True
  | .tarraySet, .append .. | .tarraySet, .removeAt _ | .tarraySet, .dup .. => True
  | .proptagArray, .appendTag .. | .proptagArray, .removeKey _ | .proptagArray, .clear
  | .proptagArray, .dup .. => True
  | .attachmentList, .append .. | .attachmentList, .removeAt _ | .attachmentList, .dup .. => True
  | .folderContent, .append .. => True
  | .propertyGroupinfo, .append .. => True
  | _, _ => False

/-- A copy that was made takes the original's place in what follows. -/
def takeCopy (a : Arr α) : Option (Option (Arr α)) → Option (Bool × Arr α)
  | none => none
  | some none => some (false, a)
  | some (some copy) => some (true, copy)

/-- One call, with what it returns; the calls that return nothing return true here. -/
def step (key : α → UInt32) (c : Container) (a : Arr α) : Op α → Option (Bool × Arr α)
  | .append alloc x => c.kind.append alloc a (some x)
  | .set alloc copy x => setPropval key alloc copy a x
  | .appendTag alloc x => proptagArrayAppend key alloc a x
  | .removeKey tag => (removeKey key a tag).map (true, ·)
  | .removeAt i => (removeAt a i).map (true, ·)
  | .clear => some (true, { a with count := 0 })
  | .dup init alloc copied => takeCopy a <| match c with
    | .tpropvalArray => tpropvalArrayDup init alloc copied a
    | .proptagArray => proptagArrayDup init a
    | c => listDup c.kind init alloc copied a

/-- The greatest count that a container reaches while its appends go right. -/
def Container.most : Container → ℕ
  | .tpropvalArray => 65535
  | .tarraySet => 0xFF00
  | .proptagArray => 65535
  | .attachmentList => 0x8000
  | .folderContent => 9
  | .propertyGroupinfo => 4294967279

end SteepSystem.Containers
