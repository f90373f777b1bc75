import SteepSystem.ExtBuffer.Leaves
import SteepSystem.Ftstreams.Buffers
import SteepSystem.Ftstreams.Points

/-!
The parser reads the atoms that the producer has written for a value, and waits where a stream may
be cut inside of them.
-/

namespace SteepSystem.Ftstreams

open SteepSystem.ExtBuffer SteepSystem.Lib.Bytes SteepSystem.Lib.Feeds SteepSystem.Lib.Feeds.Reader

variable {α β : Type} {atoms new new' : List Atom} {n k : ℕ}

/-! ### Cutting inside of some atoms or behind them -/

lemma Boundary.le (h : Boundary atoms n) : n ≤ (text atoms).length := by
  obtain ⟨before, ⟨after, rfl⟩, rfl⟩ := h
  simp

lemma Boundary.of_append (h : Boundary (new ++ new') n) :
    Boundary new n ∨ (text new).length ≤ n ∧ Boundary new' (n - (text new).length) := by
  obtain ⟨before, hbefore, rfl⟩ := h
  rcases List.prefix_or_prefix_of_prefix hbefore (List.prefix_append new new') with hfront | hbehind
  · exact .inl ⟨before, hfront, rfl⟩
  · obtain ⟨rest, rfl⟩ := hbehind
    exact .inr ⟨by simp, rest, (List.prefix_append_right_inj new).mp hbefore, by simp⟩

lemma Spans.of_append {type : PointType} {a b : ℕ} (h : Spans (new ++ new') type a b) :
    Spans new type a b ∨
      (text new).length ≤ a ∧ Spans new' type (a - (text new).length) (b - (text new).length) := by
  obtain ⟨before, atom, after, happend, htype, ha, hb⟩ := h.isAtom
  rcases List.append_eq_append_iff.mp happend with ⟨rest, rfl, hrest⟩ | ⟨rest, rfl, hrest⟩
  · refine .inr ⟨by rw [← ha, text_append, List.length_append]; omega, rest, atom, after, hrest,
      htype, ?_, ?_⟩ <;> rw [text_append, List.length_append] at ha <;> omega
  · cases rest with
    | nil =>
      rw [List.nil_append] at hrest
      rw [List.append_nil]
      exact .inr ⟨ha.le, [], atom, after, hrest.symm, htype, by rw [ha]; simp, by omega⟩
    | cons atom' rest =>
      obtain ⟨rfl, -⟩ := List.cons.inj hrest
      exact .inl ⟨before, atom, rest, rfl, htype, ha, hb⟩

lemma Cut.of_append (h : Cut (new ++ new') n) :
    n ≤ (text new).length ∧ Cut new n ∨
      (text new).length ≤ n ∧ Cut new' (n - (text new).length) := by
  rcases h with hb | ⟨hs, ha, hb⟩ | ⟨hs, ha, hb, heven⟩
  · rcases hb.of_append with hfront | ⟨hle, hbehind⟩
    · exact .inl ⟨hfront.le, .between hfront⟩
    · exact .inr ⟨hle, .between hbehind⟩
  · rcases hs.of_append with hfront | ⟨hle, hbehind⟩
    · exact .inl ⟨hb.trans hfront.boundary.le, .longVar hfront ha hb⟩
    · exact .inr ⟨hle.trans ha, .longVar hbehind (by omega) (by omega)⟩
  · rcases hs.of_append with hfront | ⟨hle, hbehind⟩
    · exact .inl ⟨hb.trans hfront.boundary.le, .wstring hfront ha hb heven⟩
    · exact .inr ⟨hle.trans ha, .wstring hbehind (by omega) (by omega) (by omega)⟩

/-- One that is not cut. -/
lemma Cut.of_fixed {bytes : Bytes} (h : Cut [⟨.normalBreak, bytes⟩] n) :
    n = 0 ∨ n = bytes.length := by
  have hspans {type : PointType} {a b : ℕ} (h : Spans [⟨.normalBreak, bytes⟩] type a b) :
      type = .normalBreak := by
    obtain ⟨before, atom, after, happend, rfl, -⟩ := h.isAtom
    rcases List.singleton_eq_append_iff.mp happend with ⟨-, hatom⟩ | ⟨-, hatom⟩
    · rw [(List.cons.inj hatom).1]
    · cases hatom
  rcases h with ⟨before, hbefore, rfl⟩ | ⟨hs, -, -⟩ | ⟨hs, -, -, -⟩
  · rcases List.prefix_cons_iff.mp hbefore with rfl | ⟨rest, rfl, hrest⟩
    · exact .inl rfl
    · obtain rfl := List.prefix_nil.mp hrest
      simp
  · cases hspans hs
  · cases hspans hs

/-- Behind one that is not cut. -/
lemma Cut.behind {bytes : Bytes} (h : Cut (⟨.normalBreak, bytes⟩ :: atoms) n) (hpos : 0 < n) :
    bytes.length ≤ n ∧ Cut atoms (n - bytes.length) := by
  rw [← List.singleton_append] at h
  have hlen : (text [⟨.normalBreak, bytes⟩]).length = bytes.length := by simp
  rcases h.of_append with ⟨-, hfront⟩ | ⟨hle, hbehind⟩
  · rcases hfront.of_fixed with rfl | rfl
    · omega
    · exact ⟨le_rfl, by rw [Nat.sub_self]; exact .between .start⟩
  · rw [hlen] at hle hbehind
    exact ⟨hle, hbehind⟩

/-! ### Reading atoms -/

/-- What is written in some atoms is read from them; where `more` is set, only once there is
something behind them. -/
structure Holds (more : Bool) (r : Read α) (a : α) (atoms : List Atom) : Prop where
  pos : 0 < (text atoms).length
  reads : ∀ q, (more = true → q ≠ []) → r (text atoms ++ q) = .ok (a, q)
  waits : ∀ n, 0 < n → n ≤ (text atoms).length → (n = (text atoms).length → more = true) →
    Cut atoms n → r ((text atoms).take n) = .error .wait

namespace Holds

variable {more : Bool} {r : Read α} {a : α}

lemma map (h : Holds more r a atoms) (f : α → β) :
    Holds more (r >>= fun a => pure (f a)) (f a) atoms where
  pos := h.pos
  reads q hq := bind_eq_ok.mpr ⟨a, q, h.reads q hq, rfl⟩
  waits n hpos hle hend hcut := bind_of_error (h.waits n hpos hle hend hcut)

lemma fixed {bytes : Bytes} (hpos : 0 < bytes.length) (h : ∀ q, r (bytes ++ q) = .ok (a, q)) :
    Holds false r a [⟨.normalBreak, bytes⟩] where
  pos := by simpa using hpos
  reads q _ := by simpa using h q
  waits n hn hle hend hcut := by
    have hlen : (text [⟨.normalBreak, bytes⟩]).length = bytes.length := by simp
    rcases hcut.of_fixed with rfl | rfl
    · omega
    · cases hend hlen.symm

end Holds

lemma take_append (bytes q : Bytes) : take bytes.length (bytes ++ q) = .ok (bytes, q) := by
  simp [take]

lemma readUint32_le (n : ℕ) (q : Bytes) : readUint32 (le 4 n ++ q) = .ok (.ofNat n, q) := by
  refine bind_eq_ok.mpr ⟨le 4 n, q, ?_, ?_⟩
  · simpa using take_append (le 4 n) q
  · rw [ofLE_le]
    exact congrArg Except.ok (Prod.ext (UInt32.toNat_inj.mp (by simp)) rfl)

lemma Block.of_self {m : ℕ} (b : Block m) : Block.of m b.1 = b := by
  obtain ⟨bytes, rfl⟩ := b
  exact Subtype.ext (by simp [Block.of])

lemma length_number (size n : ℕ) : (number size n).bytes.length = size := length_le size n

/-- A number, and what it says of what is behind it. -/
lemma Holds.counted {more : Bool} {a : α} {r : UInt32 → Read α}
    (hreads : ∀ q, (more = true → q ≠ []) → r (.ofNat n) (text atoms ++ q) = .ok (a, q))
    (hwaits : ∀ k ≤ (text atoms).length, (k = (text atoms).length → more = true) → Cut atoms k →
      r (.ofNat n) ((text atoms).take k) = .error .wait) :
    Holds more (readUint32 >>= r) a (number 4 n :: atoms) where
  pos := by
    rw [text_cons, List.length_append, length_number]
    omega
  reads q hq := by
    rw [text_cons, List.append_assoc]
    exact (bind_of_ok (readUint32_le n _)).trans (hreads q hq)
  waits k hpos hle hend hcut := by
    obtain ⟨hlen, hcut⟩ := hcut.behind hpos
    rw [length_le] at hlen hcut
    rw [text_cons, List.length_append, length_number] at hle hend
    have htake : (text (number 4 n :: atoms)).take k =
        le 4 n ++ (text atoms).take (k - 4) := by
      rw [text_cons, List.take_append, length_number, List.take_of_length_le]
      · rfl
      · rw [length_number]
        exact hlen
    rw [htake]
    exact (bind_of_ok (readUint32_le n _)).trans
      (hwaits (k - 4) (by omega) (fun h => hend (by omega)) hcut)

lemma toNat_ofNat_of_lt {n : ℕ} (h : n < 2 ^ 32) : (UInt32.ofNat n).toNat = n := by
  rw [UInt32.toNat_ofNat_of_lt']
  exact h

variable (x : Setup)

/-- What the store and `iconv` promise: a string that could be converted comes back, and the name of
a property finds it again. -/
structure Setup.Lawful : Prop where
  empty : x.utf16leToUtf8 [0, 0] = some (.of [])
  wide : ∀ {s w}, x.utf8ToUtf16le s = some w →
    x.utf16leToUtf8 w = some s ∧ ∃ units, w = units ++ [0, 0] ∧ Units units
  names : ∀ {propid propname}, x.namedPropname propid = some propname →
    x.namedPropid propname = some propid ∧
      (propname.kind = 0 → propname.pname = none) ∧
      (propname.kind = 1 → propname.plid = none ∧
        ∀ s, propname.pname = some s → ∃ w, x.utf8ToUtf16le s = some w)

/-- A string as it comes back in 16 bits units; one that cannot be converted is empty then. -/
def wideForm (pstr : CString) : CString :=
  match x.utf8ToUtf16le pstr with
  | some _ => pstr
  | none => .of []

variable {x}

variable {r : Read α} {val : β → α} {item : β → List Atom}

variable (x) in
/-- A value as it is read. -/
def valueRead (proptype : UInt16) (pvalue : PropVal) : PropVal :=
  match label proptype, pvalue with
  | some .wstring, .string pstr => .string (wideForm x pstr)
  | some .wstringArray, .stringArray ppstr => .stringArray (ppstr.map (wideForm x))
  | _, _ => pvalue

variable (x) in
/-- The value is not longer than the parser allows. -/
def Fits (proptype : UInt16) (pvalue : PropVal) : Prop :=
  match label proptype, pvalue with
  | some .string, .string pstr => pstr.bytes.length + 1 < x.maxMailLength
  | some .wstring, .string pstr => (Producer.utf16 x pstr).length < x.maxMailLength
  | some .object, .binary pb | some .binary, .binary pb => pb.length < x.maxMailLength
  | some .shortArray, .shortArray ps => ps.length * 2 ≤ 0x10000
  | some .longArray, .longArray pl => pl.length * 4 ≤ 0x10000
  | some .longlongArray, .longlongArray pll => pll.length * 8 ≤ 0x10000
  | some .guidArray, .guidArray pguid => pguid.length * 16 ≤ 0x10000
  | some .stringArray, .stringArray ppstr =>
    ∀ pstr ∈ ppstr, pstr.bytes.length + 1 < x.maxMailLength
  | some .wstringArray, .stringArray ppstr =>
    ∀ pstr ∈ ppstr, (Producer.utf16 x pstr).length < x.maxMailLength
  | some .binaryArray, .binaryArray pbin => ∀ pb ∈ pbin, pb.length < x.maxMailLength
  | _, _ => True

end SteepSystem.Ftstreams
