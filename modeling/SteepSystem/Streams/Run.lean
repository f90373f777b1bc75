import SteepSystem.Lib.Runs
import SteepSystem.Streams.Scan

/-!
A stream that is written to and marked in any order, against the bytes that have been received.
-/

namespace SteepSystem.Streams

open SteepSystem.Lib.Runs SteepSystem.Streams.Stream

/-- Whether the byte at `p` is a dot that ends the message, and how: within CR LF, or within single
bytes that are the last ones or have a zero behind them. -/
def endsAt (bytes : List UInt8) (p : ℕ) : Option EomResult :=
  if p < 2 ∨ bytes[p]? ≠ some dot ∨ bytes.length ≤ p + 1 then none
  else
    compareTemp (bytes.getD (p - 2) 0) (bytes.getD (p - 1) 0) (bytes.getD (p + 1) 0)
      (bytes.getD (p + 2) 0)

def firstEnd (bytes : List UInt8) : Option (EomResult × ℕ) :=
  (List.range bytes.length).findSome? fun p => (endsAt bytes p).map fun result => (result, p)

/-- What has been received, and where the message ends if a mark has found that. -/
structure Received where
  bytes : List UInt8
  eom : Option (EomResult × ℕ)

inductive Op
  | write (bytes : List UInt8)
  | mark

namespace Received

def next (r : Received) : Op → Received
  | .write bytes => { r with bytes := r.bytes ++ bytes }
  | .mark => { r with eom := r.eom.or (firstEnd r.bytes) }

def hasEom (r : Received) : Eom :=
  match r.eom with
  | none => .none
  | some (result, p) => if p + terminatorLength result = r.bytes.length then .net else .dirty

end Received

namespace Stream

/-- What stands in memory behind the last byte does not matter to the dots at the end. -/
def Settled (s : Stream) : Prop :=
  ∀ p, s.wrTotalPos ≤ p + 2 → p < s.wrTotalPos → s.hitAt p = endsAt s.content p

/-- One message has been received at most. -/
def Single (s : Stream) : Prop :=
  ∀ p q, endsAt s.content p ≠ none → endsAt s.content q ≠ none → p = q

/-- There are blocks for what is written, and the positions are of type `int`. -/
def Admits (s : Stream) : Op → Prop
  | .write bytes =>
    ∃ t, s.write bytes = some t ∧ t.wrBlockPos < streamBlockSize ∧ t.wrTotalPos < 2 ^ 31
  | .mark => s.eomResult = .waiting → s.Settled ∧ s.Single

def Step (s : Stream) : Op → Stream → Prop
  | .write bytes, t => s.write bytes = some t
  | .mark, t => t = s.tryMarkEom

/-- The split gives the message up to the dot, and to a stream with enough blocks what follows the
terminator. -/
def SplitsAt (s : Stream) (bytes : List UInt8) (p next : ℕ) : Prop :=
  (∃ t, (∀ fuel, s.splitEom fuel none = some (t, none)) ∧ t.content = bytes.take p) ∧
    ∀ second : Stream, second.list ≠ [] → (bytes.drop next).length < second.capacity →
      ∃ fuel t u, s.splitEom fuel (some second) = some (t, some u) ∧
        t.content = bytes.take p ∧ u.content = bytes.drop next

/-- The stream does what its bytes tell. -/
structure Refines (s : Stream) (r : Received) : Prop where
  content : s.content = r.bytes
  hasEom : s.hasEom = r.hasEom
  splits : ∀ result p, r.eom = some (result, p) →
    s.SplitsAt r.bytes p (p + terminatorLength result)

variable {s t : Stream}

/-! ### The End of a Message -/

lemma byteAt_eq_getD {p : ℕ} (h : p < s.wrTotalPos) : s.content.getD p 0 = s.byteAt p := by
  rw [List.getD_eq_getElem?_getD, content_getElem? h, Option.getD_some]

/-- Within the stream, the scan sees what has been written. -/
lemma hitAt_eq_endsAt {p : ℕ} (h : p + 2 < s.wrTotalPos) : s.hitAt p = endsAt s.content p := by
  unfold hitAt endsAt
  rw [length_content, content_getElem? (by omega), byteAt_eq_getD (by omega),
    byteAt_eq_getD (by omega), byteAt_eq_getD (by omega), byteAt_eq_getD (by omega)]
  have hcond : (p < 2 ∨ some (s.byteAt p) ≠ some dot ∨ s.wrTotalPos ≤ p + 1) ↔
      p < 2 ∨ s.byteAt p ≠ dot := by
    rw [ne_eq, Option.some_inj]
    constructor
    · rintro (h | h | h)
      · exact .inl h
      · exact .inr h
      · omega
    · rintro (h | h)
      · exact .inl h
      · exact .inr (.inl h)
  simp only [hcond]
  rw [if_neg (show ¬ (p / streamBlockSize = s.pnodeWr ∧ p + 1 = s.wrTotalPos) by
      rintro ⟨-, h'⟩
      omega),
    if_neg (show ¬ (p / streamBlockSize = s.pnodeWr ∧ p + 2 = s.wrTotalPos) by
      rintro ⟨-, h'⟩
      omega)]

lemma endsAt_eq_none_of_le {bytes : List UInt8} {p : ℕ} (h : bytes.length ≤ p + 1) :
    endsAt bytes p = none := by
  rw [endsAt, if_pos (.inr (.inr h))]

/-- What is received later does not change where a message ends. -/
lemma endsAt_append {bytes more : List UInt8} {p : ℕ} (h : p + 2 < bytes.length) :
    endsAt (bytes ++ more) p = endsAt bytes p := by
  have hget : ∀ q < bytes.length, (bytes ++ more).getD q 0 = bytes.getD q 0 := by
    intro q hq
    rw [List.getD_eq_getElem?_getD, List.getElem?_append_left hq, List.getD_eq_getElem?_getD]
  unfold endsAt
  rw [List.getElem?_append_left (by omega), hget _ (by omega), hget _ (by omega),
    hget _ (by omega), hget _ (by omega)]
  have hle : (bytes ++ more).length ≤ p + 1 ↔ bytes.length ≤ p + 1 := by
    rw [List.length_append]
    omega
  simp only [hle]

lemma compareTemp_eq_some {t₀ t₁ t₃ t₄ : UInt8} {result : EomResult}
    (h : compareTemp t₀ t₁ t₃ t₄ = some result) :
    result = .crlf ∧ t₀ = cr ∧ t₁ = lf ∧ t₃ = cr ∧ t₄ = lf ∨
      result = .crorlf ∧ (t₁ = lf ∧ t₃ = lf ∨ t₁ = cr ∧ t₃ = cr) ∧ t₄ = 0 := by
  unfold compareTemp at h
  split at h
  · rename_i hc
    exact .inl ⟨(Option.some.inj h).symm, hc⟩
  · split at h
    · rename_i hc
      exact .inr ⟨(Option.some.inj h).symm, hc⟩
    · cases h

lemma of_endsAt {bytes : List UInt8} {p : ℕ} {result : EomResult}
    (h : endsAt bytes p = some result) :
    p + terminatorLength result ≤ bytes.length ∧ result ≠ .waiting := by
  unfold endsAt at h
  split at h
  · cases h
  · rename_i hc
    rw [not_or, not_or] at hc
    rcases compareTemp_eq_some h with ⟨rfl, -, -, -, h4⟩ | ⟨rfl, -⟩
    · refine ⟨?_, by simp⟩
      by_contra hlt
      rw [List.getD_eq_getElem?_getD, List.getElem?_eq_none
        (by simp only [terminatorLength] at hlt; omega)] at h4
      exact absurd h4 (by decide)
    · refine ⟨?_, by simp⟩
      simp only [terminatorLength]
      omega

/-- The bytes from `p` on, one after the other. -/
lemma eq_append_cons {bytes : List UInt8} {p : ℕ} {b : UInt8} (h : bytes[p]? = some b) :
    bytes.drop p = b :: bytes.drop (p + 1) := by
  obtain ⟨hlt, rfl⟩ := List.getElem?_eq_some_iff.mp h
  exact List.drop_eq_getElem_cons hlt

lemma getElem?_of_getD {bytes : List UInt8} {p : ℕ} {b : UInt8} (h : bytes.getD p 0 = b)
    (hlt : p < bytes.length) : bytes[p]? = some b := by
  rw [List.getD_eq_getElem?_getD, List.getElem?_eq_getElem hlt] at h
  rw [List.getElem?_eq_getElem hlt]
  exact congrArg some h

lemma getElem?_append_add (before tail : List UInt8) (i : ℕ) :
    (before ++ tail)[before.length + i]? = tail[i]? := by
  rw [List.getElem?_append_right (Nat.le_add_right _ _), Nat.add_sub_cancel_left]

/-- The first kind of end is the terminator that the protocol knows. -/
lemma endsAt_eq_crlf_iff {bytes : List UInt8} {p : ℕ} :
    endsAt bytes p = some .crlf ↔
      ∃ before after, bytes = before ++ cr :: lf :: dot :: cr :: lf :: after ∧
        p = before.length + 2 := by
  constructor
  · intro h
    have hlen := (of_endsAt h).1
    simp only [terminatorLength] at hlen
    unfold endsAt at h
    split at h
    · cases h
    rename_i hc
    rw [not_or, not_or, not_not] at hc
    obtain ⟨q, rfl⟩ : ∃ q, p = q + 2 := ⟨p - 2, by omega⟩
    rcases compareTemp_eq_some h with ⟨-, h0, h1, h3, h4⟩ | ⟨hne, -⟩
    · refine ⟨bytes.take q, bytes.drop (q + 5), ?_, by rw [List.length_take]; omega⟩
      rw [← eq_append_cons (getElem?_of_getD h4 (by omega) : bytes[q + 4]? = some lf),
        ← eq_append_cons (getElem?_of_getD h3 (by omega) : bytes[q + 3]? = some cr),
        ← eq_append_cons hc.2.1,
        ← eq_append_cons (getElem?_of_getD h1 (by omega) : bytes[q + 1]? = some lf),
        ← eq_append_cons (getElem?_of_getD h0 (by omega) : bytes[q]? = some cr),
        List.take_append_drop]
    · cases hne
  · rintro ⟨before, after, rfl, rfl⟩
    have hget := getElem?_append_add before (cr :: lf :: dot :: cr :: lf :: after)
    unfold endsAt
    simp only [List.getD_eq_getElem?_getD]
    rw [show before.length + 2 - 2 = before.length + 0 by omega,
      show before.length + 2 - 1 = before.length + 1 by omega, hget, hget, hget, Nat.add_assoc,
      Nat.add_assoc, hget, hget, if_neg]
    · rfl
    · simp

/-- The second one is a single byte on both sides, at the end or before a zero, and not at the
head of the stream. -/
lemma endsAt_eq_crorlf_iff {bytes : List UInt8} {p : ℕ} :
    endsAt bytes p = some .crorlf ↔
      ∃ before c after, (c = lf ∨ c = cr) ∧ before ≠ [] ∧
        bytes = before ++ c :: dot :: c :: after ∧ after.headD 0 = 0 ∧
        p = before.length + 1 := by
  constructor
  · intro h
    have hlen := (of_endsAt h).1
    simp only [terminatorLength] at hlen
    unfold endsAt at h
    split at h
    · cases h
    rename_i hc
    rw [not_or, not_or, not_not] at hc
    obtain ⟨q, rfl⟩ : ∃ q, p = q + 1 := ⟨p - 1, by omega⟩
    rcases compareTemp_eq_some h with ⟨hne, -⟩ | ⟨-, h13, h4⟩
    · cases hne
    · obtain ⟨c, hcase, h1, h3⟩ : ∃ c, (c = lf ∨ c = cr) ∧ bytes.getD (q + 1 - 1) 0 = c ∧
          bytes.getD (q + 1 + 1) 0 = c := by
        rcases h13 with h | h
        · exact ⟨lf, .inl rfl, h⟩
        · exact ⟨cr, .inr rfl, h⟩
      refine ⟨bytes.take q, c, bytes.drop (q + 3), hcase, ?_, ?_, ?_, ?_⟩
      · intro hnil
        have := congrArg List.length hnil
        rw [List.length_take, List.length_nil] at this
        omega
      · rw [← eq_append_cons (getElem?_of_getD h3 (by omega) : bytes[q + 2]? = some c),
          ← eq_append_cons hc.2.1,
          ← eq_append_cons (getElem?_of_getD h1 (by omega) : bytes[q]? = some c),
          List.take_append_drop]
      · rw [List.headD_eq_head?_getD, List.head?_drop, ← List.getD_eq_getElem?_getD]
        exact h4
      · rw [List.length_take]
        omega
  · rintro ⟨before, c, after, hcase, hne, rfl, hhead, rfl⟩
    have hget := getElem?_append_add before (c :: dot :: c :: after)
    have hpos := List.length_pos_iff.mpr hne
    unfold endsAt
    simp only [List.getD_eq_getElem?_getD]
    rw [show before.length + 1 - 1 = before.length + 0 by omega, hget, hget, Nat.add_assoc,
      Nat.add_assoc, hget, hget, if_neg]
    · have hzero : after[0]?.getD 0 = 0 := by
        rwa [← List.head?_eq_getElem?, ← List.headD_eq_head?_getD]
      change compareTemp _ c c (after[0]?.getD 0) = some .crorlf
      rw [hzero]
      rcases hcase with rfl | rfl
      · rw [compareTemp, if_neg (by simp [lf, cr]), if_pos ⟨.inl ⟨rfl, rfl⟩, rfl⟩]
      · rw [compareTemp, if_neg (by simp [lf, cr]), if_pos ⟨.inr ⟨rfl, rfl⟩, rfl⟩]
    · simp
      omega

/-! ### The Mark -/

lemma firstEnd_eq_none {bytes : List UInt8} (h : ∀ p, endsAt bytes p = none) :
    firstEnd bytes = none := by
  simp [firstEnd, h]

lemma firstEnd_eq_some {bytes : List UInt8} {p : ℕ} {result : EomResult}
    (hp : endsAt bytes p = some result) (h : ∀ q < p, endsAt bytes q = none) :
    firstEnd bytes = some (result, p) := by
  have hlt : p + 1 < bytes.length := by
    by_contra hle
    rw [endsAt_eq_none_of_le (by omega)] at hp
    cases hp
  refine List.findSome?_eq_some_iff.mpr
    ⟨List.range p, p, (List.range (bytes.length - (p + 1))).map (p + 1 + ·), ?_, ?_, ?_⟩
  · rw [List.append_cons, ← List.range_succ, ← List.range_add]
    congr 1
    omega
  · simp [hp]
  · intro q hq
    simp [h q (List.mem_range.mp hq)]

/-- The mark has not come to what ends a message, or it has found it. -/
def Marked (s : Stream) (r : Received) : Prop :=
  match r.eom with
  | none => s.eomResult = .waiting ∧ s.lastEomParse ≤ s.wrTotalPos ∧
      ∀ p < s.lastEomParse, p + 2 < r.bytes.length ∧ endsAt r.bytes p = none
  | some (result, p) => s.eomResult = result ∧ result ≠ .waiting ∧ s.lastEomParse = p ∧
      p + terminatorLength result ≤ r.bytes.length

structure Represents (s : Stream) (r : Received) : Prop where
  valid : s.Valid
  content : s.content = r.bytes
  marked : s.Marked r
  lt : s.wrTotalPos < 2 ^ 31

lemma Represents.write {r : Received} (h : s.Represents r) {bytes : List UInt8}
    (ha : s.Admits (.write bytes)) (hst : s.write bytes = some t) :
    t.Represents (r.next (.write bytes)) := by
  obtain ⟨t', ht', hroom, hlt⟩ := ha
  rw [hst] at ht'
  cases ht'
  obtain ⟨hvalid, hcontent, heom, hlast⟩ := write_spec h.valid hst hroom
  refine ⟨hvalid, by rw [hcontent, h.content]; rfl, ?_, hlt⟩
  have hlen := congrArg List.length hcontent
  rw [length_content, List.length_append, length_content] at hlen
  have hm := h.marked
  unfold Marked at hm ⊢
  cases hr : r.eom with
  | none =>
    simp only [hr, Received.next] at hm ⊢
    obtain ⟨hw, hle, hnone⟩ := hm
    refine ⟨heom.trans hw, by omega, fun p hp => ?_⟩
    obtain ⟨hp', hn⟩ := hnone p (by omega)
    exact ⟨by rw [List.length_append]; omega, by rw [endsAt_append hp', hn]⟩
  | some e =>
    obtain ⟨result, p⟩ := e
    simp only [hr, Received.next] at hm ⊢
    obtain ⟨hw, hne, hp, hle⟩ := hm
    exact ⟨heom.trans hw, hne, hlast.trans hp, by rw [List.length_append]; omega⟩

lemma Represents.mark {r : Received} (h : s.Represents r) (ha : s.Admits .mark) :
    s.tryMarkEom.Represents (r.next .mark) := by
  have hm := h.marked
  unfold Marked at hm
  unfold tryMarkEom
  cases hr : r.eom with
  | some e =>
    obtain ⟨result, p⟩ := e
    simp only [hr] at hm
    rw [if_pos (by rw [hm.1]; exact hm.2.1)]
    refine ⟨h.valid, h.content, ?_, h.lt⟩
    unfold Marked
    simp only [Received.next, hr, Option.some_or]
    exact hm
  | none =>
    simp only [hr] at hm
    obtain ⟨hw, hle, hbefore⟩ := hm
    rw [if_neg (not_not.mpr hw)]
    obtain ⟨hsettled, hsingle⟩ := ha hw
    have hlen : s.wrTotalPos = r.bytes.length := by
      rw [← length_content s, h.content]
    have hagree : ∀ p < s.wrTotalPos, s.hitAt p = endsAt r.bytes p := by
      intro p hp
      rw [← h.content]
      rcases Nat.lt_or_ge (p + 2) s.wrTotalPos with hlt | hge
      · exact hitAt_eq_endsAt hlt
      · exact hsettled p hge hp
    have hfinds := scanBlocks_spec h.valid hle
    dsimp only
    cases hscan : s.scanBlocks
        (s.wrTotalPos / streamBlockSize - s.lastEomParse / streamBlockSize) 0 with
    | some found =>
      obtain ⟨result, p⟩ := found
      rw [hscan] at hfinds
      obtain ⟨-, hp, hhit, -⟩ := hfinds
      rw [hagree p hp] at hhit
      have hfirst : firstEnd r.bytes = some (result, p) := by
        refine firstEnd_eq_some hhit fun q hq => ?_
        by_contra hne
        rw [Single, h.content] at hsingle
        exact hq.ne (hsingle q p hne (by simp [hhit]))
      obtain ⟨hfits, hne⟩ := of_endsAt hhit
      refine ⟨⟨h.valid.node, h.valid.pos, h.valid.lt⟩, h.content, ?_, h.lt⟩
      unfold Marked
      simp only [Received.next, hr, Option.none_or, hfirst]
      exact ⟨trivial, hne, trivial, hfits⟩
    | none =>
      rw [hscan] at hfinds
      have hnone : ∀ p, endsAt r.bytes p = none := by
        intro p
        rcases Nat.lt_or_ge p s.lastEomParse with hlt | hge
        · exact (hbefore p hlt).2
        rcases Nat.lt_or_ge p s.wrTotalPos with hlt | hge'
        · rw [← hagree p hlt]
          exact hfinds p hge hlt
        · exact endsAt_eq_none_of_le (by omega)
      refine ⟨⟨h.valid.node, h.valid.pos, h.valid.lt⟩, h.content, ?_, h.lt⟩
      unfold Marked
      simp only [Received.next, hr, Option.none_or, firstEnd_eq_none hnone]
      refine ⟨hw, by split <;> omega, fun p hp => ⟨?_, hnone p⟩⟩
      split at hp <;> omega

/-! ### The Split -/

lemma hasEom_of_represents {r : Received} (h : s.Represents r) : s.hasEom = r.hasEom := by
  have hm := h.marked
  have hlen : s.wrTotalPos = r.bytes.length := by
    rw [← length_content s, h.content]
  unfold Marked at hm
  unfold Stream.hasEom Received.hasEom
  cases hr : r.eom with
  | none =>
    simp only [hr] at hm
    rw [hm.1]
  | some e =>
    obtain ⟨result, p⟩ := e
    simp only [hr] at hm
    obtain ⟨hw, hne, hp, -⟩ := hm
    rw [hw, hp, hlen]
    cases result with
    | waiting => exact absurd rfl hne
    | crlf => rfl
    | crorlf => rfl

lemma before_div (hv : s.Valid) {x : ℕ} (hx : x ≤ s.wrTotalPos) {blocks : ℤ}
    (hblocks : blocks = (s.wrTotalPos / streamBlockSize : ℕ) - (x / streamBlockSize : ℕ)) :
    s.before blocks = some (x / streamBlockSize) := by
  have hdiv := Nat.div_le_div_right (c := streamBlockSize) hx
  rw [← hv.node] at hdiv hblocks
  generalize x / streamBlockSize = m at hdiv hblocks ⊢
  subst hblocks
  unfold before
  rw [if_pos (by omega)]
  congr 1
  omega

lemma content_truncateEom (hv : s.Valid) (h : s.lastEomParse ≤ s.wrTotalPos) :
    s.truncateEom.content = s.content.take s.lastEomParse := by
  have hdiv := Nat.div_le_div_right (c := streamBlockSize) h
  unfold truncateEom
  rw [before_div hv h (Nat.cast_sub hdiv)]
  unfold content
  rw [← List.map_take, List.take_range, min_eq_left h]
  rfl

section

variable (hv : s.Valid) {x : ℕ} (hx : x = s.lastEomParse + terminatorLength s.eomResult)
  (hle : x ≤ s.wrTotalPos) (hlt : s.wrTotalPos < 2 ^ 31)

include hx hle hlt

lemma fakePos_eq : s.fakePos = x := by
  unfold fakePos
  rw [← hx]
  exact Int.bmod_eq_of_le (by omega) (by omega)

lemma fakeBlocks_eq :
    s.fakeBlocks = (s.wrTotalPos / streamBlockSize : ℕ) - (x / streamBlockSize : ℕ) := by
  have hdiv := Nat.div_le_div_right (c := streamBlockSize) hle
  have hself := Nat.div_le_self s.wrTotalPos streamBlockSize
  unfold fakeBlocks
  rw [fakePos_eq hx hle hlt, ← Int.ofNat_tdiv]
  generalize x / streamBlockSize = m at hdiv ⊢
  generalize s.wrTotalPos / streamBlockSize = n at hdiv hself ⊢
  exact Int.bmod_eq_of_le (by omega) (by omega)

lemma rdBlockPos_fakeStream (pnodeRd : ℕ) :
    (s.fakeStream pnodeRd).rdBlockPos = x % streamBlockSize := by
  have hmod := Nat.mod_lt x streamBlockSize_pos
  have hsize : streamBlockSize = 65536 := rfl
  unfold fakeStream
  rw [fakePos_eq hx hle hlt, ← Int.ofNat_tmod]
  generalize x % streamBlockSize = m at hmod ⊢
  dsimp only
  omega

include hv

lemma before_fakeBlocks : s.before s.fakeBlocks = some (x / streamBlockSize) :=
  before_div hv hle (fakeBlocks_eq hx hle hlt)

end

lemma splitsAt_of_represents {r : Received} (h : s.Represents r) {result : EomResult} {p : ℕ}
    (he : r.eom = some (result, p)) : s.SplitsAt r.bytes p (p + terminatorLength result) := by
  have hm := h.marked
  have hlen : s.wrTotalPos = r.bytes.length := by
    rw [← length_content s, h.content]
  unfold Marked at hm
  simp only [he] at hm
  obtain ⟨rfl, hne, rfl, hle⟩ := hm
  rw [← hlen] at hle
  have hbefore := before_fakeBlocks h.valid rfl hle h.lt
  have htruncate := content_truncateEom h.valid ((Nat.le_add_right _ _).trans hle)
  rw [h.content] at htruncate
  constructor
  · refine ⟨s.truncateEom, fun fuel => ?_, htruncate⟩
    rw [splitEom, if_neg hne, hbefore]
  · intro second hsecond hroom
    have hpos := rdBlockPos_fakeStream rfl hle h.lt
      ((s.lastEomParse + terminatorLength s.eomResult) / streamBlockSize)
    have hx := Nat.div_add_mod' (s.lastEomParse + terminatorLength s.eomResult) streamBlockSize
    have hmod := Nat.mod_lt (s.lastEomParse + terminatorLength s.eomResult) streamBlockSize_pos
    have hv : (s.fakeStream
        ((s.lastEomParse + terminatorLength s.eomResult) / streamBlockSize)).Valid :=
      ⟨h.valid.node, h.valid.pos, h.valid.lt⟩
    rw [← hpos] at hx hmod
    have hroom' : 0 + s.wrTotalPos < second.clear.capacity +
        ((s.lastEomParse + terminatorLength s.eomResult) / streamBlockSize * streamBlockSize +
          (s.fakeStream ((s.lastEomParse + terminatorLength s.eomResult) / streamBlockSize)
            ).rdBlockPos) := by
      rw [List.length_drop, ← hlen] at hroom
      rw [capacity_clear, hx]
      omega
    obtain ⟨u, hcopy, -, hcontent, -⟩ := exists_copy hv hmod (hx.trans_le hle)
      (valid_clear hsecond) hroom'
    obtain ⟨fuel, hu⟩ : ∃ fuel, copy fuel _ _ = some u := ⟨_, hcopy⟩
    refine ⟨fuel, s.truncateEom, u, ?_, htruncate, ?_⟩
    · rw [splitEom, if_neg hne, hbefore]
      dsimp only
      rw [hu]
    · have hnil : second.clear.content = [] := rfl
      rw [hcontent, hnil, List.nil_append, ← h.content]
      exact congrArg s.content.drop hx

end Stream

lemma Stream.represents_of_run {s t : Stream} (hs : s.list ≠ []) {ops : List Op}
    (h : Run Admits Step s.clear ops t) :
    t.Represents (ops.foldl Received.next ⟨[], none⟩) := by
  refine h.simulates (fun s r op t hr ha hst => ?_) ?_
  · cases op with
    | write bytes => exact hr.write ha hst
    | mark =>
      cases hst
      exact hr.mark ha
  · refine ⟨valid_clear hs, rfl, ⟨rfl, le_rfl, fun p hp => absurd hp (Nat.not_lt_zero p)⟩, ?_⟩
    exact Nat.two_pow_pos 31

/-- **A stream that is cleared, written to and marked tells where the first message ends, and the
split cuts it there.** -/
theorem Stream.received_of_run {s t : Stream} (hs : s.list ≠ []) {ops : List Op}
    (h : Run Admits Step s.clear ops t) : t.Refines (ops.foldl Received.next ⟨[], none⟩) := by
  have hr := represents_of_run hs h
  exact ⟨hr.content, hasEom_of_represents hr, fun result p he => splitsAt_of_represents hr he⟩

/-- A stream with one block. -/
def Stream.empty : Stream where
  list := [fun _ => 0]
  allocator := []
  pnodeRd := 0
  pnodeWr := 0
  eomResult := .waiting
  rdBlockPos := 0
  wrBlockPos := 0
  rdTotalPos := 0
  wrTotalPos := 0
  lastEomParse := 0

/-- The conditions of a mark, for the positions that there are. -/
lemma Stream.admits_mark {s : Stream}
    (h : ∀ p < s.wrTotalPos, s.hitAt p = endsAt s.content p ∧
      ∀ q < s.wrTotalPos, endsAt s.content p = none ∨ endsAt s.content q = none ∨ p = q) :
    s.Admits .mark := by
  have hlt : ∀ p, endsAt s.content p ≠ none → p < s.wrTotalPos := by
    intro p hp
    by_contra hle
    exact hp (endsAt_eq_none_of_le (by rw [length_content]; omega))
  refine fun _ => ⟨fun p _ hp => (h p hp).1, fun p q hp hq => ?_⟩
  rcases (h p (hlt p hp)).2 q (hlt q hq) with h | h | h
  · exact absurd h hp
  · exact absurd h hq
  · exact h

/-- A message whose terminator comes in two writes, with a byte behind it. -/
theorem Stream.received_of_run_split :
    ∃ t, Run Admits Step Stream.empty.clear
        [.write [97, cr, lf, dot, cr], .mark, .write [lf, 98], .mark] t ∧
      t.Refines ⟨[97, cr, lf, dot, cr, lf, 98], some (.crlf, 3)⟩ := by
  have hfirst : Stream.empty.clear.write [97, cr, lf, dot, cr] =
      some ((Stream.empty.clear.put [97, cr, lf, dot, cr]).forwardWritingPtr 5) :=
    write_of_le (by simp) (by decide)
  have hsecond : ((Stream.empty.clear.put [97, cr, lf, dot, cr]).forwardWritingPtr 5
      ).tryMarkEom.write [lf, 98] =
      some ((((Stream.empty.clear.put [97, cr, lf, dot, cr]).forwardWritingPtr 5).tryMarkEom.put
        [lf, 98]).forwardWritingPtr 2) :=
    write_of_le (by simp) (by decide +kernel)
  have hrun : Run Admits Step Stream.empty.clear
      [.write [97, cr, lf, dot, cr], .mark, .write [lf, 98], .mark]
      ((((Stream.empty.clear.put [97, cr, lf, dot, cr]).forwardWritingPtr 5).tryMarkEom.put
        [lf, 98]).forwardWritingPtr 2).tryMarkEom :=
    .cons ⟨_, hfirst, by decide +kernel, by decide +kernel⟩ hfirst <|
    .cons (admits_mark (by decide +kernel)) rfl <|
    .cons ⟨_, hsecond, by decide +kernel, by decide +kernel⟩ hsecond <|
    .cons (admits_mark (by decide +kernel)) rfl (.nil _)
  have h := received_of_run (by simp [Stream.empty]) hrun
  exact ⟨_, hrun, h⟩

/-- **Line feeds end a message as well, and of two messages in one write the second one is found.** -/
theorem Stream.not_crlf : (∃ t, Stream.empty.write [97, lf, dot, lf] = some t ∧
      t.tryMarkEom.hasEom = .net ∧
      ∀ before after, t.tryMarkEom.content ≠ before ++ [cr, lf, dot, cr, lf] ++ after) ∧
    ∃ t, Stream.empty.write [cr, lf, dot, cr, lf, 97, cr, lf, dot, cr, lf] = some t ∧
      t.tryMarkEom.hasEom = .net ∧ t.tryMarkEom.lastEomParse = 8 := by
  constructor
  · refine ⟨_, write_of_le (by simp) (by decide), by decide +kernel, fun before after h => ?_⟩
    have hlen := congrArg List.length h
    have hfour : ((Stream.empty.put [97, lf, dot, lf]).forwardWritingPtr 4).tryMarkEom.wrTotalPos =
        4 := by decide +kernel
    rw [length_content, List.length_append, List.length_append] at hlen
    have := hfour.symm.trans hlen
    simp at this
    omega
  · exact ⟨_, write_of_le (by simp) (by decide), by decide +kernel, by decide +kernel⟩

end SteepSystem.Streams
