import SteepSystem.StreamObjects.Run

/-!
What becomes of a stream's bytes when the stream is released. A folder's stream is written back
if it is marked as touched; one of a message or an attachment only if its parent has it in its
list as well, where a write puts it.
-/

namespace SteepSystem.StreamObjects

open SteepSystem.Lib.Runs

/-- A stream with its place in the parent's list, and the bytes that were last loaded or
committed. -/
structure Opened where
  stream : StreamObject
  listed : Bool
  stored : List UInt8

/-- `granted` tells whether the content converts and the store takes it. -/
def streamObjectCommit (o : Opened) (granted : Bool) : Bool × Opened :=
  if o.stream.objectType ≠ .folder then (false, o)
  else if o.stream.touched = false then (true, o)
  else if granted then
    (true, { o with stream := { o.stream with touched := false }, stored := o.stream.content })
  else (false, o)

/-- The message or the attachment stores the content of a stream in its list. -/
def parentCommitStreamObject (o : Opened) (granted : Bool) : List UInt8 :=
  if o.listed ∧ granted then o.stream.content else o.stored

/-- The bytes that are stored after the stream has been freed. -/
def streamObjectFree (o : Opened) (granted : Bool) : List UInt8 :=
  match o.stream.objectType with
  | .folder => if o.stream.touched then (streamObjectCommit o granted).2.stored else o.stored
  | .message | .attachment =>
    if o.stream.touched then parentCommitStreamObject o granted else o.stored

/-- Whether a write comes to ask the parent to list the stream. -/
def writeAsks (s : StreamObject) (data : List UInt8) (mem : Bool) : Bool :=
  s.openFlags ≠ openstreamFlagReadonly ∧
  ¬ (s.content.length ≥ s.maxLength ∧ s.seekPtr ≥ s.content.length) ∧
  (if u32 (s.seekPtr + data.length) > s.content.length then
    streamObjectSetLength s (u32 (s.seekPtr + data.length)) mem else (true, s)).1 ∧
  s.objectType ≠ .folder

/-- Whether a call puts stream `i` in its parent's list. -/
def lists (w : ℕ → Opened) (i : ℕ) : Op → Bool
  | .write j data mem appended => decide (i = j) && writeAsks (w j).stream data mem && appended
  | _ => false

/-- The mark alone brings the bytes to the store. -/
def Opened.Tracked (o : Opened) : Prop := o.stream.objectType = .folder ∨ o.listed

/-- From `s` to `s'` the bytes stay, or they change under the mark and `t` holds. -/
structure Moved (t : Prop) (s s' : StreamObject) : Prop where
  objectType : s'.objectType = s.objectType
  openFlags : s'.openFlags = s.openFlags
  touched : s.touched → s'.touched
  content : s'.content = s.content ∨ s'.touched ∧ t

variable {t : Prop} {s s' : StreamObject}

lemma Moved.refl : Moved t s s := ⟨rfl, rfl, id, .inl rfl⟩

lemma Moved.seekPtr (h : Moved t s s') (n : ℕ) : Moved t s { s' with seekPtr := n } :=
  ⟨h.objectType, h.openFlags, h.touched, h.content⟩

/-- What is kept for a stream that may be written: bytes that are not the stored ones are marked,
and the mark brings them to the store. -/
structure Opened.Marked (o : Opened) : Prop where
  touched : o.stream.content ≠ o.stored → o.stream.touched
  tracked : o.stream.content ≠ o.stored → o.Tracked

/-- **Freed.** The bytes of a marked stream are stored when it is freed, if the store takes
them; a folder's are when it is committed. -/
theorem Opened.Marked.persists {o : Opened} (h : o.Marked) :
    streamObjectFree o true = o.stream.content ∧
      (o.stream.objectType = .folder → (streamObjectCommit o true).2.stored = o.stream.content) := by
  have hcommit : o.stream.objectType = .folder →
      (streamObjectCommit o true).2.stored = o.stream.content := by
    intro hfolder
    unfold streamObjectCommit
    rw [if_neg (not_not.mpr hfolder)]
    by_cases htouched : o.stream.touched = false
    · rw [if_pos htouched]
      by_contra hne
      simp [h.touched fun heq => hne heq.symm] at htouched
    · rw [if_neg htouched]
      rfl
  refine ⟨?_, hcommit⟩
  by_cases hsame : o.stream.content = o.stored
  · -- Whatever is stored, it is these bytes.
    have hstored : (streamObjectCommit o true).2.stored = o.stored := by
      unfold streamObjectCommit
      split_ifs <;> simp_all
    unfold streamObjectFree parentCommitStreamObject
    rw [hstored]
    cases o.stream.objectType <;> simp [hsame]
  have htouched := h.touched hsame
  unfold streamObjectFree parentCommitStreamObject
  rcases h.tracked hsame with hfolder | hlisted
  · simp only [hfolder, htouched, if_true]
    exact hcommit hfolder
  · cases htype : o.stream.objectType with
    | folder =>
      simp only [htouched, if_true]
      exact hcommit htype
    | message => simp [htouched, hlisted]
    | attachment => simp [htouched, hlisted]

/-- A call that moves each stream as it may, with its list entry. -/
lemma Opened.Marked.move {o o' : Opened} (h : o.Marked) (hstored : o'.stored = o.stored)
    (hlisted : o.listed → o'.listed) (hmoved : Moved o'.Tracked o.stream o'.stream) : o'.Marked := by
  have hsame : o'.stream.content = o.stream.content → o'.stream.content ≠ o'.stored →
      o.stream.content ≠ o.stored := fun heq hne => by rwa [heq, hstored] at hne
  constructor
  · intro hne
    rcases hmoved.content with heq | ⟨htouched, -⟩
    · exact hmoved.touched (h.touched (hsame heq hne))
    · exact htouched
  · intro hne
    rcases hmoved.content with heq | ⟨-, htracked⟩
    · exact (h.tracked (hsame heq hne)).imp (fun ht => hmoved.objectType.trans ht) hlisted
    · exact htracked

end SteepSystem.StreamObjects
