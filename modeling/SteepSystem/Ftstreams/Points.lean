import SteepSystem.Ftstreams.Producer

/-!
Where a FastTransfer stream may be cut. It is made of atoms, and is not cut inside of one, except
where that is a long value; a string of 16 bits units is then cut between two of them. The points
that the producer notes while it writes say where the atoms end, and there are enough of them that
every piece of the stream can be given back.
-/

namespace SteepSystem.Ftstreams

open SteepSystem.ExtBuffer SteepSystem.Lib.Bytes

/-! ### Atoms -/

/-- One whose type is not `normalBreak` may be cut. -/
structure Atom where
  type : PointType
  bytes : Bytes
  deriving DecidableEq

def text (atoms : List Atom) : Bytes := (atoms.map Atom.bytes).flatten

@[simp] lemma text_nil : text [] = [] := rfl

@[simp] lemma text_cons (a : Atom) (atoms : List Atom) :
    text (a :: atoms) = a.bytes ++ text atoms := rfl

@[simp] lemma text_append (atoms atoms' : List Atom) :
    text (atoms ++ atoms') = text atoms ++ text atoms' := by
  simp [text]

variable {atoms new new' : List Atom} {a b n : ℕ} {type : PointType}

/-- Behind that many bytes an atom has ended. -/
def Boundary (atoms : List Atom) (n : ℕ) : Prop :=
  ∃ before, before <+: atoms ∧ (text before).length = n

/-- The bytes from one offset to another are an atom of that type. -/
structure Spans (atoms : List Atom) (type : PointType) (a b : ℕ) : Prop where
  isAtom : ∃ before atom after, atoms = before ++ atom :: after ∧ atom.type = type ∧
    (text before).length = a ∧ a + atom.bytes.length = b

/-- The stream may be cut there. -/
inductive Cut (atoms : List Atom) (n : ℕ) : Prop
  | between (h : Boundary atoms n)
  | longVar {a b : ℕ} (h : Spans atoms .longVar a b) (ha : a ≤ n) (hb : n ≤ b)
  | wstring {a b : ℕ} (h : Spans atoms .wstring a b) (ha : a ≤ n) (hb : n ≤ b)
      (heven : (n - a) % 2 = 0)

namespace Boundary

lemma start : Boundary atoms 0 := ⟨[], List.nil_prefix, rfl⟩

lemma whole : Boundary atoms (text atoms).length := ⟨atoms, List.prefix_rfl, rfl⟩

lemma append (h : Boundary atoms n) : Boundary (atoms ++ new) n := by
  obtain ⟨before, hbefore, hn⟩ := h
  exact ⟨before, hbefore.trans (List.prefix_append _ _), hn⟩

end Boundary

namespace Spans

lemma append (h : Spans atoms type a b) : Spans (atoms ++ new) type a b := by
  obtain ⟨before, atom, after, rfl, htype, ha, hb⟩ := h.isAtom
  exact ⟨before, atom, after ++ new, by simp, htype, ha, hb⟩

/-- Where an atom ends, the stream may be cut. -/
lemma boundary (h : Spans atoms type a b) : Boundary atoms b := by
  obtain ⟨before, atom, after, rfl, -, ha, hb⟩ := h.isAtom
  refine ⟨before ++ [atom], ⟨after, by simp⟩, ?_⟩
  simp only [text_append, text_cons, text_nil, List.append_nil, List.length_append]
  omega

end Spans

/-- How one point comes after another. -/
structure Follows (atoms : List Atom) (p q : PointNode) : Prop where
  lt : p.offset < q.offset
  near : q.type = .normalBreak → Boundary atoms q.offset ∧ q.offset < p.offset + 2052
  spans : q.type ≠ .normalBreak → Spans atoms q.type p.offset q.offset

namespace Follows

variable {p q : PointNode}

lemma append (h : Follows atoms p q) (new : List Atom) : Follows (atoms ++ new) p q where
  lt := h.lt
  near hq := ⟨(h.near hq).1.append, (h.near hq).2⟩
  spans hq := (h.spans hq).append

lemma boundary (h : Follows atoms p q) : Boundary atoms q.offset := by
  by_cases hq : q.type = .normalBreak
  · exact (h.near hq).1
  · exact (h.spans hq).boundary

end Follows

/-! ### The atoms of an element -/

/-- A number. -/
def number (size n : ℕ) : Atom := ⟨.normalBreak, le size n⟩

/-- The length of a value and the value, which may be cut when it is long. -/
def varAtoms (type : PointType) (pb : Bytes) : List Atom :=
  [number 4 pb.length, ⟨if pointLength ≤ pb.length then type else .normalBreak, pb⟩]

variable (x : Setup) (option : StringOption) (cpid : UInt16)

def stringAtoms (pstr : CString) : List Atom := varAtoms .longVar (pstr.bytes ++ [0])

def wstringAtoms (pstr : CString) : List Atom := varAtoms .wstring (Producer.utf16 x pstr)

def binaryAtoms (pb : Bytes) : List Atom := varAtoms .longVar pb

def guidAtom (guid : Guid) : Atom := ⟨.normalBreak, Producer.guidToBinary guid⟩

/-- The count of values, and they. -/
def arrayAtoms {α : Type} (new : α → List Atom) (as : List α) : List Atom :=
  number 4 (UInt32.ofNat as.length).toNat :: as.flatMap new

def valueAtoms (proptype : UInt16) (pvalue : PropVal) : Option (List Atom) :=
  match label proptype, pvalue with
  | some .short, .short v => some [number 2 v.toNat]
  | some .error, .long v | some .long, .long v => some [number 4 v.toNat]
  | some .float, .float bits => some [number 4 bits.toNat]
  | some .double, .double bits | some .floatingtime, .double bits => some [number 8 bits.toNat]
  | some .byte, .byte v => some [number 2 v.toUInt16.toNat]
  | some .currency, .longlong v | some .longlong, .longlong v | some .filetime, .longlong v =>
    some [number 8 v.toNat]
  | some .string, .string pstr => some (stringAtoms pstr)
  | some .wstring, .string pstr => some (wstringAtoms x pstr)
  | some .guid, .guid r => some [guidAtom r]
  | some .object, .binary pb | some .binary, .binary pb => some (binaryAtoms pb)
  | some .shortArray, .shortArray ps => some (arrayAtoms (fun v => [number 2 v.toNat]) ps)
  | some .longArray, .longArray pl => some (arrayAtoms (fun v => [number 4 v.toNat]) pl)
  | some .longlongArray, .longlongArray pll => some (arrayAtoms (fun v => [number 8 v.toNat]) pll)
  | some .stringArray, .stringArray ppstr => some (arrayAtoms stringAtoms ppstr)
  | some .wstringArray, .stringArray ppstr => some (arrayAtoms (wstringAtoms x) ppstr)
  | some .guidArray, .guidArray pguid => some (arrayAtoms (fun guid => [guidAtom guid]) pguid)
  | some .binaryArray, .binaryArray pbin => some (arrayAtoms binaryAtoms pbin)
  | _, _ => none

def propdefBytes (proptype propid : UInt16) : Option Bytes :=
  if propid &&& 0x8000 = 0 then some (le 2 proptype.toNat ++ le 2 propid.toNat)
  else do
    let propname ← x.namedPropname propid
    let bytes ← Producer.propnameBytes x propname
    some (le 2 proptype.toNat ++ le 2 propid.toNat ++ bytes)

/-- A definition and a value are an atom each, or more where the value has a length. -/
def elementAtoms : Element → Option (List Atom)
  | .marker marker => some [number 4 marker.toNat]
  | .propval (.mk proptag pvalue) =>
    if proptypeOf proptag = 0x00FB then some []
    else do
      let (proptype, writeType, pvalue) := Producer.valueForm x option cpid (.mk proptag pvalue)
      let propdef ← propdefBytes x writeType (propidOf proptag)
      let new ← valueAtoms x proptype pvalue
      some (⟨.normalBreak, propdef⟩ :: new)

def streamAtoms : List Element → Option (List Atom)
  | [] => some []
  | e :: es => do
    let new ← elementAtoms x option cpid e
    let new' ← streamAtoms es
    some (new ++ new')

/-! ### What the producer keeps while it writes -/

namespace Producer

def start : PointNode := ⟨.normalBreak, 0⟩

/-- What has been written. -/
def content (pstream : Producer) : Bytes := pstream.fd.elim [] File.content ++ pstream.buffer

variable {pstream : Producer} {pending : Bytes}

lemma getLast?_points (pstream : Producer) :
    (start :: pstream.bpList).getLast?.elim 0 PointNode.offset = pstream.lastSeek := by
  rw [List.getLast?_cons]
  cases h : pstream.bpList.getLast? with
  | none => simp [lastSeek, h, start]
  | some p => simp [lastSeek, h]

@[simp] lemma lastSeek_addPoint (pstream : Producer) (type : PointType) (offset : ℕ) :
    (pstream.addPoint type offset).lastSeek = offset := by
  simp [lastSeek, addPoint]

/-- A point behind all others. -/
lemma chain_addPoint {q : PointNode} (hchain : (start :: pstream.bpList).IsChain (Follows atoms))
    (hq : ∀ p : PointNode, p.offset = pstream.lastSeek → Follows atoms p q) :
    (start :: (pstream.addPoint q.type q.offset).bpList).IsChain (Follows atoms) := by
  change (start :: (pstream.bpList ++ [q])).IsChain _
  rw [← List.cons_append]
  refine hchain.append (List.isChain_singleton q) fun p hp q' hq' => ?_
  obtain rfl : q = q' := by simpa using hq'
  refine hq p ?_
  rw [← getLast?_points, Option.mem_def.mp hp]
  rfl

lemma isBehind_eq (hn : 0 < n) : pstream.isBehind n = decide (pstream.lastSeek < n) := by
  cases h : pstream.bpList.getLast? <;> simp [isBehind, lastSeek, h, hn]

/-- Then the last point is that one. -/
lemma lastSeek_recordNbp (hn : 0 < n) (hle : pstream.lastSeek ≤ n) :
    (pstream.recordNbp n).lastSeek = n := by
  unfold recordNbp
  rw [isBehind_eq hn]
  by_cases h : pstream.lastSeek < n
  · rw [if_pos (by simpa using h), lastSeek_addPoint]
  · rw [if_neg (by simpa using h)]
    omega

lemma chain_recordNbp (hn : 0 < n) (hchain : (start :: pstream.bpList).IsChain (Follows atoms))
    (hbound : Boundary atoms n) (hnear : n < pstream.lastSeek + 2052) :
    (start :: (pstream.recordNbp n).bpList).IsChain (Follows atoms) := by
  unfold recordNbp
  rw [isBehind_eq hn]
  by_cases h : pstream.lastSeek < n
  · rw [if_pos (by simpa using h)]
    refine chain_addPoint (q := ⟨.normalBreak, n⟩) hchain fun p hp =>
      ⟨?_, fun _ => ⟨hbound, ?_⟩, ?_⟩
    · exact hp ▸ h
    · exact hp ▸ hnear
    · exact fun hne => absurd rfl hne
  · rw [if_neg (by simpa using h)]
    exact hchain

/-- The atoms that have been written, and the bytes of the next one. -/
structure Written (atoms : List Atom) (pending : Bytes) (pstream : Producer) : Prop where
  content : pstream.content = text atoms ++ pending
  offset : pstream.offset = (text atoms).length + pending.length
  unread : pstream.bRead = false
  front : pstream.readOffset = 0
  chain : (start :: pstream.bpList).IsChain (Follows atoms)
  behind : pstream.lastSeek ≤ (text atoms).length
  near : (text atoms).length < pstream.lastSeek + pointLength

lemma written_create : Written [] [] create where
  content := rfl
  offset := rfl
  unread := rfl
  front := rfl
  chain := List.isChain_singleton _
  behind := Nat.le_refl _
  near := by decide

lemma content_writeInternal (pstream : Producer) (pbuff : Bytes) :
    (pstream.writeInternal pbuff).content = pstream.content ++ pbuff := by
  unfold writeInternal
  by_cases hlong : bufferLength ≤ pbuff.length
  · simp [hlong, spill, content]
  · by_cases hroom : bufferLength - pstream.buffer.length < pbuff.length
    · simp [hlong, hroom, spill, content]
    · simp [hlong, hroom, content]

lemma bpList_writeInternal (pstream : Producer) (pbuff : Bytes) :
    (pstream.writeInternal pbuff).bpList = pstream.bpList := by
  unfold writeInternal spill
  split_ifs <;> rfl

lemma bRead_writeInternal (pstream : Producer) (pbuff : Bytes) :
    (pstream.writeInternal pbuff).bRead = pstream.bRead := by
  unfold writeInternal spill
  split_ifs <;> rfl

lemma offset_writeInternal (pstream : Producer) (pbuff : Bytes) :
    (pstream.writeInternal pbuff).offset = (pstream.offset + pbuff.length) % 2 ^ 32 := by
  unfold writeInternal spill
  split_ifs <;> rfl

lemma readOffset_writeInternal {pbuff : Bytes} (h : pstream.readOffset = 0) :
    (pstream.writeInternal pbuff).readOffset = 0 := by
  unfold writeInternal spill
  split_ifs <;> first | rfl | exact h

namespace Written

lemma writeInternal (h : Written atoms pending pstream) (pbuff : Bytes)
    (hfits : (text atoms).length + (pending ++ pbuff).length < 2 ^ 32) :
    Written atoms (pending ++ pbuff) (pstream.writeInternal pbuff) where
  content := by rw [content_writeInternal, h.content, List.append_assoc]
  offset := by
    rw [List.length_append] at hfits ⊢
    rw [offset_writeInternal, h.offset, Nat.mod_eq_of_lt (by omega)]
    omega
  unread := by rw [bRead_writeInternal, h.unread]
  front := readOffset_writeInternal h.front
  chain := by
    rw [bpList_writeInternal]
    exact h.chain
  behind := by
    rw [lastSeek, bpList_writeInternal]
    exact h.behind
  near := by
    rw [lastSeek, bpList_writeInternal]
    exact h.near

/-- The atom that has been written is one of those that are not cut. -/
lemma tryRecodeNbp (h : Written atoms pending pstream)
    (hfits : (text atoms).length + pending.length < 2 ^ 32) (hshort : pending.length ≤ 1028) :
    Written (atoms ++ [⟨.normalBreak, pending⟩]) [] pstream.tryRecodeNbp := by
  have hlen : (text (atoms ++ [⟨.normalBreak, pending⟩])).length = pstream.offset := by
    simp [h.offset]
  have hbehind := h.behind
  have hnear := h.near
  have hoffset := h.offset
  have hsub : sub32 pstream.offset pstream.lastSeek = pstream.offset - pstream.lastSeek := by
    unfold sub32
    omega
  have hchain := h.chain.imp fun p q hpq => hpq.append [⟨.normalBreak, pending⟩]
  have hcontent : pstream.content = text (atoms ++ [⟨.normalBreak, pending⟩]) ++ [] := by
    simp [h.content]
  unfold Producer.tryRecodeNbp
  rw [hsub]
  unfold pointLength at hnear ⊢
  split_ifs with hfar
  · refine ⟨hcontent, by rw [hlen]; rfl, h.unread, h.front, ?_, ?_, ?_⟩
    · refine chain_addPoint (q := ⟨.normalBreak, pstream.offset⟩) hchain fun p hp => ⟨?_, ?_, ?_⟩
      · change p.offset < pstream.offset
        omega
      · exact fun _ => ⟨hlen ▸ .whole, by change pstream.offset < _; omega⟩
      · exact fun hne => absurd rfl hne
    · rw [lastSeek_addPoint, hlen]
    · rw [lastSeek_addPoint, hlen]
      exact Nat.lt_add_of_pos_right (by decide)
  · refine ⟨hcontent, by rw [hlen]; rfl, h.unread, h.front, hchain, ?_, ?_⟩ <;> rw [hlen]
    · omega
    · unfold pointLength
      omega

/-- A long value, inside of which the stream may be cut. -/
lemma recordVar (htype : type ≠ .normalBreak) (h : Written atoms pending pstream)
    (hfits : (text atoms).length + pending.length < 2 ^ 32) (hpos : 0 < (text atoms).length)
    (hlong : pointLength ≤ pending.length) :
    Written (atoms ++ [⟨type, pending⟩]) []
      (recordVar type pstream (text atoms).length pending.length) := by
  have hlen : (text (atoms ++ [⟨type, pending⟩])).length = pstream.offset := by simp [h.offset]
  have hsum : ((text atoms).length + pending.length) % 2 ^ 32 = pstream.offset := by
    rw [h.offset, Nat.mod_eq_of_lt hfits]
  have hseek := lastSeek_recordNbp hpos h.behind
  have hnear := h.near
  have hoffset := h.offset
  unfold pointLength at hnear hlong
  have hchain := (chain_recordNbp hpos h.chain .whole (by omega)).imp
    fun p q hpq => hpq.append [⟨type, pending⟩]
  have hspans : Spans (atoms ++ [⟨type, pending⟩]) type (text atoms).length pstream.offset :=
    ⟨atoms, ⟨type, pending⟩, [], rfl, rfl, rfl, hoffset.symm⟩
  have hsame : (pstream.recordNbp (text atoms).length).content = pstream.content ∧
      (pstream.recordNbp (text atoms).length).offset = pstream.offset ∧
      (pstream.recordNbp (text atoms).length).bRead = pstream.bRead ∧
      (pstream.recordNbp (text atoms).length).readOffset = pstream.readOffset := by
    unfold recordNbp
    split_ifs <;> exact ⟨rfl, rfl, rfl, rfl⟩
  obtain ⟨hcontent, hoff, hread, hfront⟩ := hsame
  unfold Producer.recordVar
  rw [if_pos (by rw [hseek, hsum]; omega), hsum]
  refine ⟨?_, ?_, hread.trans h.unread, hfront.trans h.front, ?_, ?_, ?_⟩
  · exact hcontent.trans (by simp [h.content])
  · exact hoff.trans (by simp [hoffset])
  · refine chain_addPoint (q := ⟨type, pstream.offset⟩) hchain fun p hp => ⟨?_, ?_, ?_⟩
    · change p.offset < pstream.offset
      omega
    · exact fun hq => absurd hq htype
    · rw [hp, hseek]
      exact fun _ => hspans
  · rw [lastSeek_addPoint, hlen]
  · rw [lastSeek_addPoint, hlen]
    exact Nat.lt_add_of_pos_right (by decide)

end Written

/-! ### The atoms that are written -/

/-- What is put behind all that has been written, where the stream stays below `2 ^ 32` bytes. -/
structure Writes (f : Producer → Producer) (new : List Atom) : Prop where
  written : ∀ {atoms pstream}, (text (atoms ++ new)).length < 2 ^ 32 → Written atoms [] pstream →
    Written (atoms ++ new) [] (f pstream)

namespace Writes

variable {f g : Producer → Producer}

lemma id : Writes (fun pstream => pstream) [] where
  written _ h := by rwa [List.append_nil]

lemma comp (hf : Writes f new) (hg : Writes g new') :
    Writes (fun pstream => g (f pstream)) (new ++ new') where
  written {atoms _} hfits h := by
    rw [← List.append_assoc] at hfits ⊢
    refine hg.written hfits (hf.written (lt_of_le_of_lt ?_ hfits) h)
    rw [text_append (atoms ++ new), List.length_append]
    exact Nat.le_add_right _ _

lemma foldl {α : Type} {f : Producer → α → Producer} {new : α → List Atom}
    (h : ∀ a, Writes (fun pstream => f pstream a) (new a)) (as : List α) :
    Writes (fun pstream => as.foldl f pstream) (as.flatMap new) := by
  induction as with
  | nil => exact id
  | cons a as ih => exact (h a).comp ih

end Writes

lemma writes_fixed {bytes : Bytes} (hshort : bytes.length ≤ 1028) :
    Writes (fun pstream => pstream.writeFixed bytes) [⟨.normalBreak, bytes⟩] where
  written {atoms _} hfits h := by
    have hfits : (text atoms).length + ([] ++ bytes).length < 2 ^ 32 := by simpa using hfits
    exact (h.writeInternal bytes hfits).tryRecodeNbp hfits (by simpa using hshort)

lemma writes_number {size : ℕ} (hsize : size ≤ 8) (n : ℕ) :
    Writes (fun pstream => pstream.writeFixed (le size n)) [number size n] :=
  writes_fixed (by rw [length_le]; omega)

lemma writes_var (type : PointType) (htype : type ≠ .normalBreak) (pb : Bytes) :
    Writes (fun pstream => writeVar (recordVar type) pstream pb)
      (varAtoms type pb) where
  written {atoms pstream} hfits h := by
    have hlen : (text atoms).length + 4 + pb.length < 2 ^ 32 := by
      simpa [number, varAtoms, add_assoc] using hfits
    have hcount : (UInt32.ofNat pb.length).toNat = pb.length := by
      rw [UInt32.toNat_ofNat_of_lt']
      exact lt_of_le_of_lt (Nat.le_add_left _ _) hlen
    have hnumber : (text (atoms ++ [number 4 pb.length])).length = (text atoms).length + 4 := by
      simp [number]
    have h₁ : Written (atoms ++ [number 4 pb.length]) []
        (pstream.writeUint32 (.ofNat pb.length)) := by
      rw [writeUint32, hcount]
      exact (writes_number (by decide) pb.length).written (by omega) h
    have hposition := h₁.offset
    rw [List.length_nil, Nat.add_zero] at hposition
    have h₂ := h₁.writeInternal pb (by rw [hnumber, List.nil_append]; omega)
    rw [List.nil_append] at h₂
    unfold writeVar varAtoms
    rw [List.append_cons atoms]
    split_ifs with hlong
    · change Written _ [] (recordVar type _ (pstream.writeUint32 (.ofNat pb.length)).offset _)
      rw [hposition]
      exact h₂.recordVar htype (by omega) (by omega) hlong
    · unfold pointLength at hlong
      exact h₂.tryRecodeNbp (by omega) (by omega)

/-- Where something is written, it is those atoms. -/
structure WritesTo (f : Producer → Option Producer) (new : Option (List Atom)) : Prop where
  written : ∀ {pstream pstream'}, f pstream = some pstream' → ∃ new', new = some new' ∧
    ∀ {atoms}, (text (atoms ++ new')).length < 2 ^ 32 → Written atoms [] pstream →
      Written (atoms ++ new') [] pstream'

namespace WritesTo

variable {f g : Producer → Option Producer} {o o' : Option (List Atom)}

lemma of_writes {h : Producer → Producer} (hh : Writes h new) :
    WritesTo (fun pstream => some (h pstream)) (some new) where
  written h := by
    cases h
    exact ⟨new, rfl, hh.written⟩

lemma bind (hf : WritesTo f o) (hg : WritesTo g o') :
    WritesTo (fun pstream => (f pstream).bind g)
      (o.bind fun new => o'.bind fun new' => some (new ++ new')) where
  written h := by
    obtain ⟨pstream₁, h₁, h₂⟩ := Option.bind_eq_some_iff.mp h
    obtain ⟨new, rfl, hw⟩ := hf.written h₁
    obtain ⟨new', rfl, hw'⟩ := hg.written h₂
    refine ⟨new ++ new', rfl, fun {atoms} hfits hwritten => ?_⟩
    rw [← List.append_assoc] at hfits ⊢
    refine hw' hfits (hw (lt_of_le_of_lt ?_ hfits) hwritten)
    rw [text_append (atoms ++ new), List.length_append]
    exact Nat.le_add_right _ _

end WritesTo

lemma writes_array {α : Type} {f : Producer → α → Producer} {new : α → List Atom}
    (h : ∀ a, Writes (fun pstream => f pstream a) (new a)) (as : List α) :
    Writes (fun pstream => as.foldl f (pstream.writeUint32 (.ofNat as.length)))
      (arrayAtoms new as) :=
  (writes_number (by decide) _).comp (Writes.foldl h as)

lemma writes_string (pstr : CString) :
    Writes (fun pstream => pstream.writeString pstr) (stringAtoms pstr) :=
  writes_var .longVar (by decide) _

lemma writes_wstring (pstr : CString) :
    Writes (fun pstream => pstream.writeWstring x pstr) (wstringAtoms x pstr) :=
  writes_var .wstring (by decide) _

lemma writes_binary (pb : Bytes) :
    Writes (fun pstream => pstream.writeBinary pb) (binaryAtoms pb) :=
  writes_var .longVar (by decide) _

lemma writes_guid (guid : Guid) : Writes (fun pstream => pstream.writeGuid guid) [guidAtom guid] :=
  writes_fixed (by simp [guidToBinary, guid.clockSeq.2, guid.node.2])

lemma writesTo_value (proptype : UInt16) (pvalue : PropVal) :
    WritesTo (fun pstream => pstream.writeValue x proptype pvalue)
      (valueAtoms x proptype pvalue) where
  written {pstream pstream'} h := by
    have found {g : Producer → Producer} {new : List Atom} (hg : Writes g new) :
        ∃ new', some new = some new' ∧ ∀ {atoms}, (text (atoms ++ new')).length < 2 ^ 32 →
          Written atoms [] pstream → Written (atoms ++ new') [] (g pstream) :=
      ⟨new, rfl, hg.written⟩
    have hnumber (size n : ℕ) (hsize : size ≤ 8) := writes_number hsize n
    unfold writeValue at h
    split at h <;> cases h <;> rename_i hlabel <;> simp only [valueAtoms, hlabel]
    all_goals
      first
      | exact found (hnumber 2 _ (by decide))
      | exact found (hnumber 4 _ (by decide))
      | exact found (hnumber 8 _ (by decide))
      | exact found (writes_string _)
      | exact found (writes_wstring x _)
      | exact found (writes_guid _)
      | exact found (writes_binary _)
      | exact found (writes_array (fun _ => hnumber 2 _ (by decide)) _)
      | exact found (writes_array (fun _ => hnumber 4 _ (by decide)) _)
      | exact found (writes_array (fun _ => hnumber 8 _ (by decide)) _)
      | exact found (writes_array writes_string _)
      | exact found (writes_array (writes_wstring x) _)
      | exact found (writes_array writes_guid _)
      | exact found (writes_array writes_binary _)

/-- The numbers of a definition. -/
lemma written_propdef (proptype propid : UInt16)
    (hfits : (text atoms).length + 4 < 2 ^ 32) (h : Written atoms [] pstream) :
    Written atoms (le 2 proptype.toNat ++ le 2 propid.toNat)
      ((pstream.writeInternal (le 2 proptype.toNat)).writeInternal (le 2 propid.toNat)) := by
  have h₁ := h.writeInternal (le 2 proptype.toNat) (by simp; omega)
  exact h₁.writeInternal (le 2 propid.toNat) (by simp; omega)

lemma length_propnameBytes {propname : PropertyName} {bytes : Bytes}
    (h : propnameBytes x propname = some bytes) : bytes.length ≤ 1024 := by
  unfold propnameBytes at h
  obtain ⟨id, -, h⟩ := Option.bind_eq_some_iff.mp h
  dsimp only at h
  split_ifs at h with hroom
  cases h
  exact hroom

lemma writesTo_propdef (proptype propid : UInt16) :
    WritesTo (fun pstream => pstream.writePropdef x proptype propid)
      ((propdefBytes x proptype propid).map fun bytes => [⟨.normalBreak, bytes⟩]) where
  written {pstream pstream'} h := by
    unfold writePropdef at h
    unfold propdefBytes
    split_ifs at h ⊢ with hnamed
    · cases h
      refine ⟨_, rfl, fun {atoms} hfits hwritten => ?_⟩
      have hfits : (text atoms).length + 4 < 2 ^ 32 := by simpa using hfits
      exact (written_propdef proptype propid hfits hwritten).tryRecodeNbp (by simpa using hfits) (by simp)
    · obtain ⟨propname, hname, h⟩ := Option.bind_eq_some_iff.mp h
      obtain ⟨bytes, hbytes, h⟩ := Option.bind_eq_some_iff.mp h
      cases h
      refine ⟨[⟨.normalBreak, le 2 proptype.toNat ++ le 2 propid.toNat ++ bytes⟩], ?_,
        fun {atoms} hfits hwritten => ?_⟩
      · simp [hname, hbytes]
      · have hshort := length_propnameBytes x hbytes
        have hfits : (text atoms).length + (4 + bytes.length) < 2 ^ 32 := by
          simpa [← add_assoc] using hfits
        have h₁ := (written_propdef proptype propid (by omega) hwritten).writeInternal bytes
          (by simp; omega)
        exact h₁.tryRecodeNbp (by simp; omega) (by simp; omega)

lemma writesTo_propvalue (p : TaggedPropval) :
    WritesTo (fun pstream => pstream.writePropvalue x option cpid p)
      (elementAtoms x option cpid (.propval p)) := by
  obtain ⟨proptag, pvalue⟩ := p
  unfold writePropvalue elementAtoms
  dsimp only
  split_ifs with hsvreid
  · exact .of_writes .id
  · rcases valueForm x option cpid (.mk proptag pvalue) with ⟨proptype, writeType, pvalue'⟩
    have h := (writesTo_propdef x writeType (propidOf proptag)).bind
      (writesTo_value x proptype pvalue')
    have hatoms : (((propdefBytes x writeType (propidOf proptag)).map fun bytes =>
        [Atom.mk .normalBreak bytes]).bind fun new =>
          (valueAtoms x proptype pvalue').bind fun new' => some (new ++ new')) =
        (propdefBytes x writeType (propidOf proptag)).bind fun propdef =>
          (valueAtoms x proptype pvalue').bind fun new =>
            some (⟨.normalBreak, propdef⟩ :: new) := by
      cases propdefBytes x writeType (propidOf proptag) <;> rfl
    rw [hatoms] at h
    exact h

/-! ### Writing elements -/

/-- A marker is written as a number. -/
def write (pstream : Producer) : Element → Option Producer
  | .marker marker => some (pstream.writeUint32 marker)
  | .propval p => pstream.writePropvalue x option cpid p

def writeAll (pstream : Producer) (es : List Element) : Option Producer :=
  es.foldlM (write x option cpid) pstream

lemma writesTo_write (e : Element) :
    WritesTo (fun pstream => pstream.write x option cpid e) (elementAtoms x option cpid e) := by
  cases e with
  | marker marker => exact .of_writes (writes_number (by decide) _)
  | propval p => exact writesTo_propvalue x option cpid p

lemma writesTo_writeAll (es : List Element) :
    WritesTo (fun pstream => pstream.writeAll x option cpid es)
      (streamAtoms x option cpid es) := by
  induction es with
  | nil => exact .of_writes .id
  | cons e es ih =>
    unfold writeAll
    simp only [List.foldlM_cons]
    exact (writesTo_write x option cpid e).bind ih

end Producer

end SteepSystem.Ftstreams
