import SteepSystem.Lib.Lines
import SteepSystem.Streams.Pointers

/-!
The lines of a stream: the mark looks for the end of the next line in the first block, and the
line is then read out of that block. A mark that finds a carriage return in the last byte received
looks at the memory behind it.
-/

namespace SteepSystem.Streams

open SteepSystem.Lib SteepSystem.Lib.Lines SteepSystem.Lib.Runs

inductive LineResult
  | fail
  | unavailable
  | available
  deriving DecidableEq

/-- A stream with its positions of lines. -/
structure LineStream extends Stream where
  lineResult : LineResult
  blockLineParse : ℕ
  blockLinePos : ℕ

inductive LineScan
  | fail
  | line (pos parse : ℕ)
  | next (i : ℕ)

/-- The loop of the mark; so many bytes follow. -/
def scanLine (pdata : Block) : ℕ → ℕ → LineScan
  | i, 0 => .next i
  | i, left + 1 =>
    if pdata i = cr then
      if streamBlockSize - 2 < i then .fail
      -- the next byte, received or not
      else if pdata (i + 1) = lf then .line i (i + 2)
      else .line i (i + 1)
    else if pdata i = lf then
      if streamBlockSize - 2 < i then .fail else .line i (i + 1)
    else scanLine pdata (i + 1) left

namespace LineStream

def streamInit (b : Block) (allocator : List Block) : LineStream where
  toStream := Stream.streamInit b allocator
  lineResult := .unavailable
  blockLineParse := 0
  blockLinePos := 0

/-- Nothing is read if no line is available. -/
def readline (s : LineStream) : Option (List UInt8 × LineStream) :=
  if s.lineResult ≠ .available then none
  else
    let distance := s.blockLinePos - s.rdBlockPos
    some ((s.block s.pnodeRd).read s.rdBlockPos distance,
      { s with
        rdBlockPos := s.blockLineParse
        rdTotalPos := s.blockLineParse
        lineResult := .unavailable })

def tryMarkLine (s : LineStream) : LineStream :=
  if s.lineResult = .available ∨ s.lineResult = .fail then s
  else if s.blockLineParse = streamBlockSize then { s with lineResult := .fail }
  else if s.pnodeRd ≠ 0 then { s with lineResult := .fail }
  else
    let stop := if s.pnodeWr = 0 then s.wrBlockPos else streamBlockSize
    match scanLine (s.block 0) s.blockLineParse (stop - s.blockLineParse) with
    | .fail => { s with lineResult := .fail }
    | .line pos parse =>
      { s with blockLineParse := parse, blockLinePos := pos, lineResult := .available }
    | .next i =>
      { s with
        blockLineParse := i
        lineResult := if i = streamBlockSize then .fail else s.lineResult }

inductive Act
  | write (bytes : List UInt8)
  | mark
  | readline

/-- The stream behind a call, and the line that it returns. -/
def act (s : LineStream) : Act → Option (LineStream × List (List UInt8))
  | .write bytes => (s.toStream.write bytes).map fun t => ({ s with toStream := t }, [])
  | .mark => some (s.tryMarkLine, [])
  | .readline =>
    match s.readline with
    | none => some (s, [])
    | some (line, t) => some (t, [line])

/-- A stream and the lines returned so far. -/
def ActStep (x : LineStream × List (List UInt8)) (a : Act) (y : LineStream × List (List UInt8)) :
    Prop :=
  ∃ line, x.1.act a = some (y.1, line) ∧ y.2 = x.2 ++ line

/-- What comes next does not change what ends the text that has been taken: a line feed comes
where it has been taken ahead, and none behind a carriage return that has been taken alone. -/
def Fits (text : List UInt8) (taken : ℕ) (next : List UInt8) : Prop :=
  (taken = text.length + 1 → next ≠ [] → next.head? = some lf) ∧
    (taken = text.length → text.getLast? = some cr → next.head? ≠ some lf)

/-- There are blocks for what is written. -/
def Act.Room (s : LineStream) : Act → Prop
  | .write bytes => s.wrTotalPos + bytes.length < s.capacity
  | _ => True

def Act.Fits (s : LineStream) : Act → Prop
  | .write bytes => LineStream.Fits s.content s.blockLineParse bytes
  | _ => True

def Act.written : Act → List UInt8
  | .write bytes => bytes
  | _ => []

variable {s t : LineStream} {got : List (List UInt8)}

/-! ### The mark -/

/-- What the mark has found: the end of the next line, and the position behind it as far as the
bytes received say. -/
structure Marked (s : LineStream) : Prop where
  le : s.rdTotalPos ≤ s.blockLinePos
  lt : s.blockLinePos < s.wrTotalPos
  small : s.blockLinePos ≤ streamBlockSize - 2
  line : ∀ i, s.rdTotalPos ≤ i → i < s.blockLinePos → ¬ IsEnd cr lf (s.byteAt i)
  ends : IsEnd cr lf (s.byteAt s.blockLinePos)
  parse : s.blockLineParse = s.blockLinePos + 1 ∨
    s.blockLineParse = s.blockLinePos + 2 ∧ s.byteAt s.blockLinePos = cr
  feed : s.byteAt s.blockLinePos = cr → s.blockLinePos + 1 < s.wrTotalPos →
    (s.blockLineParse = s.blockLinePos + 2 ↔ s.byteAt (s.blockLinePos + 1) = lf)

lemma scanLine_cases (pdata : Block) (i left : ℕ) :
    (scanLine pdata i left = .next (i + left) ∧
      ∀ j, i ≤ j → j < i + left → ¬ IsEnd cr lf (pdata j)) ∨
    ∃ j, i ≤ j ∧ j < i + left ∧ (∀ m, i ≤ m → m < j → ¬ IsEnd cr lf (pdata m)) ∧
      IsEnd cr lf (pdata j) ∧
      (streamBlockSize - 2 < j ∧ scanLine pdata i left = .fail ∨
        j ≤ streamBlockSize - 2 ∧ scanLine pdata i left =
          .line j (if pdata j = cr ∧ pdata (j + 1) = lf then j + 2 else j + 1)) := by
  induction left generalizing i with
  | zero => exact .inl ⟨rfl, fun j hle hlt => absurd hlt (by omega)⟩
  | succ left ih =>
    by_cases hend : IsEnd cr lf (pdata i)
    · refine .inr ⟨i, le_rfl, by omega, fun m hle hlt => absurd hlt (by omega), hend, ?_⟩
      rw [scanLine]
      by_cases hcr : pdata i = cr
      · rw [if_pos hcr]
        by_cases hlate : streamBlockSize - 2 < i
        · exact .inl ⟨hlate, if_pos hlate⟩
        · refine .inr ⟨not_lt.mp hlate, ?_⟩
          rw [if_neg hlate]
          by_cases hlf : pdata (i + 1) = lf
          · rw [if_pos hlf, if_pos ⟨hcr, hlf⟩]
          · rw [if_neg hlf, if_neg fun h => hlf h.2]
      · have hlf : pdata i = lf := hend.resolve_left hcr
        rw [if_neg hcr, if_pos hlf]
        by_cases hlate : streamBlockSize - 2 < i
        · exact .inl ⟨hlate, if_pos hlate⟩
        · refine .inr ⟨not_lt.mp hlate, ?_⟩
          rw [if_neg hlate, if_neg fun h => hcr h.1]
    · have hstep : scanLine pdata i (left + 1) = scanLine pdata (i + 1) left := by
        rw [scanLine, if_neg fun h => hend (.inl h), if_neg fun h => hend (.inr h)]
      have hfirst : ∀ m, i ≤ m → ¬ i + 1 ≤ m → ¬ IsEnd cr lf (pdata m) := by
        intro m hle hnot
        obtain rfl : m = i := by omega
        exact hend
      rw [hstep]
      rcases ih (i + 1) with ⟨hscan, hnone⟩ | ⟨j, hle, hlt, hnone, hj, hscan⟩
      · refine .inl ⟨by rw [hscan]; congr 1; omega, fun m hle hlt => ?_⟩
        by_cases hm : i + 1 ≤ m
        · exact hnone m hm (by omega)
        · exact hfirst m hle hm
      · refine .inr ⟨j, by omega, by omega, fun m hle hlt => ?_, hj, hscan⟩
        by_cases hm : i + 1 ≤ m
        · exact hnone m hm hlt
        · exact hfirst m hle hm

/-! ### The invariant -/

/-- Whatever fits next, the lines are those returned and those behind what has been read. -/
def Cut (text : List UInt8) (read : ℕ) (got : List (List UInt8)) : Prop :=
  ∀ next, Fits text read next →
    lines cr lf (text ++ next) = got ++ lines cr lf ((text ++ next).drop read)

structure Inv (s : LineStream) (got : List (List UInt8)) : Prop where
  valid : s.Valid
  node : s.pnodeRd = 0
  pos : s.rdBlockPos = s.rdTotalPos
  le : s.rdTotalPos ≤ s.blockLineParse
  small : s.blockLineParse ≤ streamBlockSize
  parse : s.blockLineParse ≤ s.wrTotalPos + 1
  cut : Cut s.content s.rdTotalPos got
  scanned : s.lineResult ≠ .available → ∀ i, s.rdTotalPos ≤ i → i < s.blockLineParse →
    i < s.wrTotalPos → ¬ IsEnd cr lf (s.byteAt i)
  ahead : s.lineResult ≠ .available → s.blockLineParse = s.wrTotalPos + 1 →
    s.rdTotalPos = s.blockLineParse
  marked : s.lineResult = .available → s.Marked
  failed : s.lineResult = .fail → streamBlockSize - 1 ≤ s.wrTotalPos

lemma fits_nil (text : List UInt8) (taken : ℕ) : Fits text taken [] :=
  ⟨fun _ h => absurd rfl h, fun _ _ h => by cases h⟩

lemma Fits.append {text bytes next : List UInt8} {taken : ℕ} (h : Fits text taken bytes)
    (hnext : Fits (text ++ bytes) taken next) : Fits text taken (bytes ++ next) := by
  cases bytes with
  | nil => simpa using hnext
  | cons b bytes => exact ⟨fun htaken _ => h.1 htaken (List.cons_ne_nil _ _), h.2⟩

lemma Cut.append {text bytes : List UInt8} {read : ℕ} (h : Cut text read got)
    (hfits : Fits text read bytes) : Cut (text ++ bytes) read got := by
  intro next hnext
  rw [List.append_assoc]
  exact h _ (hfits.append hnext)

lemma Inv.fits (h : Inv s got) {bytes : List UInt8}
    (hfits : Fits s.content s.blockLineParse bytes) : Fits s.content s.rdTotalPos bytes := by
  have hle := h.le
  have hparse := h.parse
  have hlen := Stream.length_content s.toStream
  refine ⟨fun hread hne => hfits.1 (by omega) hne, fun hread hlast => ?_⟩
  by_cases havailable : s.lineResult = .available
  · have hmarked := h.marked havailable
    have := hmarked.le
    have := hmarked.lt
    omega
  · refine hfits.2 ?_ hlast
    by_contra hne
    have := h.ahead havailable (by omega)
    omega

lemma inv_streamInit (b : Block) (allocator : List Block) : Inv (streamInit b allocator) [] where
  valid := (Stream.holds_streamInit b allocator).valid
  node := rfl
  pos := rfl
  le := le_rfl
  small := Nat.zero_le _
  parse := Nat.zero_le _
  cut _ _ := rfl
  scanned _ _ _ hlt := absurd hlt (Nat.not_lt_zero _)
  ahead _ h := by cases h
  marked h := by cases h
  failed h := by cases h

lemma byteAt_eq_of_content {u v : Stream} {bytes : List UInt8} (h : v.content = u.content ++ bytes)
    {i : ℕ} (hi : i < u.wrTotalPos) : v.byteAt i = u.byteAt i := by
  have hlen := congrArg List.length h
  rw [List.length_append, Stream.length_content, Stream.length_content] at hlen
  have hget : v.content[i]? = (u.content ++ bytes)[i]? := by rw [h]
  rw [Stream.content_getElem? (by omega), List.getElem?_append_left (by simpa using hi),
    Stream.content_getElem? hi] at hget
  exact Option.some.inj hget

lemma byteAt_length {u v : Stream} {bytes : List UInt8} (h : v.content = u.content ++ bytes)
    (hne : bytes ≠ []) : bytes.head? = some (v.byteAt u.wrTotalPos) := by
  have hlen := congrArg List.length h
  have hpos := List.length_pos_iff.mpr hne
  rw [List.length_append, Stream.length_content, Stream.length_content] at hlen
  have hget : v.content[u.wrTotalPos]? = (u.content ++ bytes)[u.wrTotalPos]? := by rw [h]
  rw [Stream.content_getElem? (by omega), List.getElem?_append_right (by simp),
    Stream.length_content, Nat.sub_self] at hget
  rw [hget, List.head?_eq_getElem?]

lemma content_getLast? {u : Stream} {i : ℕ} (h : i + 1 = u.wrTotalPos) :
    u.content.getLast? = some (u.byteAt i) := by
  rw [List.getLast?_eq_getElem?, Stream.length_content, ← h, Nat.add_sub_cancel,
    Stream.content_getElem? (by omega)]

lemma Marked.write {u : Stream} {bytes : List UInt8} (h : s.Marked)
    (hcontent : u.content = s.content ++ bytes) (hreader : Stream.SameReader s.toStream u)
    (hfits : Fits s.content s.blockLineParse bytes) : Marked { s with toStream := u } := by
  have hlen := congrArg List.length hcontent
  rw [List.length_append, Stream.length_content, Stream.length_content] at hlen
  have hlt := h.lt
  have hbyte : ∀ {i}, i < s.wrTotalPos → u.byteAt i = s.byteAt i := byteAt_eq_of_content hcontent
  refine ⟨?_, ?_, h.small, ?_, ?_, ?_, ?_⟩
  · exact hreader.2.2.trans_le h.le
  · exact lt_of_lt_of_le hlt (by dsimp only; omega)
  · intro i hle hi
    dsimp only at hle hi ⊢
    rw [hreader.2.2] at hle
    rw [hbyte (by omega)]
    exact h.line i hle hi
  · dsimp only
    rw [hbyte hlt]
    exact h.ends
  · dsimp only
    rw [hbyte hlt]
    exact h.parse
  · dsimp only
    rw [hbyte hlt]
    intro hcr hnext
    by_cases hold : s.blockLinePos + 1 < s.wrTotalPos
    · rw [hbyte hold]
      exact h.feed hcr hold
    · -- the carriage return was the last byte received when it was marked
      have heq : s.blockLinePos + 1 = s.wrTotalPos := by omega
      have hne : bytes ≠ [] := by
        rintro rfl
        simp at hlen
        omega
      have hhead := byteAt_length hcontent hne
      rw [← heq] at hhead
      constructor
      · intro hparse
        have := hfits.1 (by rw [Stream.length_content]; omega) hne
        exact Option.some.inj (hhead.symm.trans this)
      · intro hlf
        rcases h.parse with hparse | hparse
        · refine absurd (hhead.trans (congrArg some hlf)) (hfits.2 ?_ ?_)
          · rw [Stream.length_content]
            omega
          · rw [content_getLast? heq, hcr]
        · exact hparse.1

lemma Inv.write (h : Inv s got) {bytes : List UInt8} {u : Stream}
    (hroom : s.wrTotalPos + bytes.length < s.capacity) (hwrite : s.toStream.write bytes = some u)
    (hfits : Fits s.content s.blockLineParse bytes) :
    Inv { s with toStream := u } got ∧ u.content = s.content ++ bytes := by
  obtain ⟨u', hu', hvalid, hcontent, -⟩ := Stream.exists_write h.valid bytes hroom
  obtain rfl : u' = u := Option.some.inj (hu'.symm.trans hwrite)
  have hreader := Stream.sameReader_write hwrite
  have hlen := congrArg List.length hcontent
  rw [List.length_append, Stream.length_content, Stream.length_content] at hlen
  obtain ⟨hnode, hpos, htotal⟩ := id hreader
  refine ⟨⟨hvalid, hnode.trans h.node, ?_, ?_, h.small, ?_, ?_, ?_, ?_, ?_, ?_⟩, hcontent⟩
  · exact (hpos.trans h.pos).trans htotal.symm
  · exact htotal.trans_le h.le
  · exact h.parse.trans (by dsimp only; omega)
  · dsimp only
    rw [hcontent, htotal]
    exact h.cut.append (h.fits hfits)
  · intro hnot i hle hlt hi
    dsimp only at hnot hle hlt hi ⊢
    rw [htotal] at hle
    by_cases hold : i < s.wrTotalPos
    · rw [byteAt_eq_of_content hcontent hold]
      exact h.scanned hnot i hle hlt hold
    · -- the mark has gone past what it had received, and so has the reader
      have hparse := h.parse
      have := h.ahead hnot (by omega)
      omega
  · intro hnot hparse
    dsimp only at hparse ⊢
    have := h.parse
    rw [htotal]
    exact h.ahead hnot (by omega)
  · exact fun hline => (h.marked hline).write hcontent hreader hfits
  · exact fun hfail => (h.failed hfail).trans (by dsimp only; omega)

lemma byteAt_first (s : Stream) {i : ℕ} (h : i < streamBlockSize) : s.byteAt i = s.block 0 i := by
  have := @Stream.byteAt_mul_add s 0 i h
  rwa [Nat.zero_mul, Nat.zero_add] at this

/-- A stream that fails keeps what it has read. -/
lemma Inv.fail (h : Inv s got) (hnot : s.lineResult ≠ .available)
    (hfull : streamBlockSize - 1 ≤ s.wrTotalPos) : Inv { s with lineResult := .fail } got :=
  { h with
    scanned := fun _ => h.scanned hnot
    ahead := fun _ => h.ahead hnot
    marked := fun hline => by cases hline
    failed := fun _ => hfull }

/-- Where the loop of the mark stops: at the end of what has been written, or of the block. -/
lemma Inv.stop (h : Inv s got) {stop : ℕ}
    (hstop : (if s.pnodeWr = 0 then s.wrBlockPos else streamBlockSize) = stop) :
    stop ≤ s.wrTotalPos ∧ stop ≤ streamBlockSize ∧
      (stop = streamBlockSize ∨ stop = s.wrTotalPos) := by
  have hwr := Stream.wrTotalPos_eq h.valid
  have hwrlt := Stream.wrBlockPos_lt h.valid
  rw [← hstop]
  by_cases hfirst : s.pnodeWr = 0
  · rw [if_pos hfirst]
    rw [hfirst] at hwr
    omega
  · rw [if_neg hfirst]
    have := Nat.mul_le_mul_right streamBlockSize (Nat.one_le_iff_ne_zero.mpr hfirst)
    omega

/-- What has been scanned before and what the loop has gone over since. -/
lemma Inv.scanned_to (h : Inv s got) (hnot : s.lineResult ≠ .available) {j : ℕ}
    (hj : j ≤ streamBlockSize)
    (hnone : ∀ i, s.blockLineParse ≤ i → i < j → ¬ IsEnd cr lf (s.block 0 i)) {i : ℕ}
    (hri : s.rdTotalPos ≤ i) (hi : i < j) (hlt : i < s.wrTotalPos) :
    ¬ IsEnd cr lf (s.byteAt i) := by
  by_cases hold : i < s.blockLineParse
  · exact h.scanned hnot i hri hold hlt
  · rw [byteAt_first s.toStream (by omega)]
    exact hnone i (by omega) hi

/-- A mark that finds no end of a line. -/
lemma Inv.next (h : Inv s got) (hnot : s.lineResult ≠ .available) {stop : ℕ}
    (hle : stop ≤ s.wrTotalPos) (hsmall : stop ≤ streamBlockSize)
    (hnone : ∀ i, s.blockLineParse ≤ i → i < s.blockLineParse + (stop - s.blockLineParse) →
      ¬ IsEnd cr lf (s.block 0 i)) :
    Inv { s with
      blockLineParse := s.blockLineParse + (stop - s.blockLineParse)
      lineResult :=
        if s.blockLineParse + (stop - s.blockLineParse) = streamBlockSize then .fail
        else s.lineResult } got := by
  have hparse := h.parse
  have hblock := h.small
  refine ⟨h.valid, h.node, h.pos, h.le.trans (Nat.le_add_right _ _), ?_, ?_, h.cut, ?_, ?_, ?_, ?_⟩
  · dsimp only
    omega
  · dsimp only
    omega
  · exact fun _ i hri hi hlt => h.scanned_to hnot (by omega) hnone hri hi hlt
  · intro _ hahead
    dsimp only at hahead ⊢
    have := h.ahead hnot (by omega)
    omega
  · intro hline
    dsimp only at hline
    split at hline
    · cases hline
    · exact absurd hline hnot
  · intro hfail
    dsimp only at hfail ⊢
    split at hfail
    · omega
    · exact h.failed hfail

/-- A mark that finds the end of a line before the last byte of the block. -/
lemma Inv.line (h : Inv s got) (hnot : s.lineResult ≠ .available) {j : ℕ}
    (hj : s.blockLineParse ≤ j) (hlt : j < s.wrTotalPos) (hsoon : j ≤ streamBlockSize - 2)
    (hnone : ∀ i, s.blockLineParse ≤ i → i < j → ¬ IsEnd cr lf (s.block 0 i))
    (hend : IsEnd cr lf (s.block 0 j)) :
    Inv { s with
      blockLineParse := if s.block 0 j = cr ∧ s.block 0 (j + 1) = lf then j + 2 else j + 1
      blockLinePos := j
      lineResult := .available } got := by
  have hblock : 2 ≤ streamBlockSize := by decide
  have hle := h.le
  have hbyte : s.byteAt j = s.block 0 j := byteAt_first s.toStream (by omega)
  have hnext : s.byteAt (j + 1) = s.block 0 (j + 1) := byteAt_first s.toStream (by omega)
  generalize hparse : (if s.block 0 j = cr ∧ s.block 0 (j + 1) = lf then j + 2 else j + 1) = parse
  have hpast : parse = j + 2 ∧ s.block 0 j = cr ∧ s.block 0 (j + 1) = lf ∨
      parse = j + 1 ∧ ¬ (s.block 0 j = cr ∧ s.block 0 (j + 1) = lf) := by
    by_cases hfeed : s.block 0 j = cr ∧ s.block 0 (j + 1) = lf
    · rw [if_pos hfeed] at hparse
      exact .inl ⟨hparse.symm, hfeed⟩
    · rw [if_neg hfeed] at hparse
      exact .inr ⟨hparse.symm, hfeed⟩
  have hmarked : Marked { s with
      blockLineParse := parse
      blockLinePos := j
      lineResult := .available } := by
    refine ⟨hle.trans hj, hlt, hsoon, ?_, ?_, ?_, ?_⟩
    · exact fun i hri hi => h.scanned_to hnot (by omega) hnone hri hi (hi.trans hlt)
    · exact hbyte ▸ hend
    · dsimp only
      rw [hbyte]
      exact hpast.elim (fun hp => .inr ⟨hp.1, hp.2.1⟩) fun hp => .inl hp.1
    · intro hcr _
      dsimp only at hcr ⊢
      rw [hbyte] at hcr
      rw [hnext]
      rcases hpast with ⟨hp, -, hfeed⟩ | ⟨hp, hfeed⟩
      · exact iff_of_true hp hfeed
      · exact iff_of_false (by omega) fun hl => hfeed ⟨hcr, hl⟩
  have hrange : j + 1 ≤ parse ∧ parse ≤ j + 2 := by omega
  refine ⟨h.valid, h.node, h.pos, ?_, ?_, ?_, h.cut, ?_, ?_, fun _ => hmarked, ?_⟩
  · dsimp only
    omega
  · dsimp only
    omega
  · dsimp only
    omega
  · exact fun hno => absurd rfl hno
  · exact fun hno => absurd rfl hno
  · exact fun hfail => by cases hfail

/-- **A mark** keeps the invariant and what has been written, and if no line is available then all
that has been written has been scanned. -/
lemma Inv.tryMarkLine (h : Inv s got) :
    Inv s.tryMarkLine got ∧ s.tryMarkLine.toStream = s.toStream ∧
      (s.tryMarkLine.lineResult = .unavailable →
        s.wrTotalPos ≤ s.tryMarkLine.blockLineParse) := by
  have hparse := h.parse
  have hsmall := h.small
  unfold LineStream.tryMarkLine
  by_cases hdone : s.lineResult = .available ∨ s.lineResult = .fail
  · rw [if_pos hdone]
    refine ⟨h, rfl, fun hnone => ?_⟩
    rw [hnone] at hdone
    rcases hdone with hline | hfail
    · cases hline
    · cases hfail
  rw [if_neg hdone]
  have hnot : s.lineResult ≠ .available := fun hline => hdone (.inl hline)
  by_cases hend : s.blockLineParse = streamBlockSize
  · rw [if_pos hend]
    exact ⟨h.fail hnot (by omega), rfl, fun hnone => by cases hnone⟩
  rw [if_neg hend, if_neg (not_not.mpr h.node)]
  dsimp only
  generalize hstop : (if s.pnodeWr = 0 then s.wrBlockPos else streamBlockSize) = stop
  obtain ⟨hle, hblock, hlast⟩ := h.stop hstop
  rcases scanLine_cases (s.block 0) s.blockLineParse (stop - s.blockLineParse) with
    ⟨hscan, hnone⟩ | ⟨j, hj, hjlt, hnone, hjend, ⟨hlate, hscan⟩ | ⟨hsoon, hscan⟩⟩
  · rw [hscan]
    refine ⟨h.next hnot hle hblock hnone, rfl, fun hmore => ?_⟩
    dsimp only at hmore ⊢
    split at hmore
    · cases hmore
    · omega
  · rw [hscan]
    exact ⟨h.fail hnot (by omega), rfl, fun hmore => by cases hmore⟩
  · rw [hscan]
    exact ⟨h.line hnot hj (by omega) hsoon hnone hjend, rfl, fun hmore => by cases hmore⟩

/-- The position behind the line that is marked is the one behind it in the whole text, if what
comes next fits. -/
lemma Marked.past (h : s.Marked) {next : List UInt8}
    (hfits : Fits s.content s.blockLineParse next) :
    (s.content ++ next).drop (past cr lf (s.content ++ next) s.blockLinePos) =
      (s.content ++ next).drop s.blockLineParse := by
  have hlt := h.lt
  have hend : (s.content ++ next)[s.blockLinePos]? = some (s.byteAt s.blockLinePos) := by
    rw [List.getElem?_append_left (by simpa using hlt), Stream.content_getElem? hlt]
  unfold Lines.past
  rw [hend]
  by_cases hcr : s.byteAt s.blockLinePos = cr
  · by_cases hold : s.blockLinePos + 1 < s.wrTotalPos
    · have hnext : (s.content ++ next)[s.blockLinePos + 1]? =
          some (s.byteAt (s.blockLinePos + 1)) := by
        rw [List.getElem?_append_left (by simpa using hold), Stream.content_getElem? hold]
      have hfeed := h.feed hcr hold
      rw [hnext]
      by_cases hlf : s.byteAt (s.blockLinePos + 1) = lf
      · rw [if_pos ⟨by rw [hcr], by rw [hlf]⟩, hfeed.mpr hlf]
      · rw [if_neg fun hp => hlf (Option.some.inj hp.2)]
        rcases h.parse with hp | hp
        · rw [hp]
        · exact absurd (hfeed.mp hp.1) hlf
    · -- the byte behind the carriage return comes next
      have heq : s.blockLinePos + 1 = s.wrTotalPos := by omega
      have hnext : (s.content ++ next)[s.blockLinePos + 1]? = next.head? := by
        rw [List.getElem?_append_right (by simp [heq]), Stream.length_content, heq, Nat.sub_self,
          List.head?_eq_getElem?]
      rw [hnext]
      rcases h.parse with hp | ⟨hp, -⟩
      · have := hfits.2 (by rw [Stream.length_content]; omega) (by
          rw [content_getLast? heq, hcr])
        rw [if_neg fun hq => this hq.2, hp]
      · by_cases hnil : next = []
        · subst hnil
          have hdrop : ∀ i, s.wrTotalPos ≤ i → (s.content ++ []).drop i = [] := by
            intro i hi
            rw [List.append_nil, List.drop_eq_nil_of_le (by rw [Stream.length_content]; exact hi)]
          have hno : ([] : List UInt8).head? ≠ some lf := nofun
          rw [if_neg fun hq => hno hq.2, hdrop _ (by omega), hdrop _ (by omega)]
        · have := hfits.1 (by rw [Stream.length_content]; omega) hnil
          rw [if_pos ⟨by rw [hcr], this⟩, hp]
  · rw [if_neg fun hp => hcr (Option.some.inj hp.1)]
    rcases h.parse with hp | hp
    · rw [hp]
    · exact absurd hp.2 hcr

lemma Marked.cut (h : s.Marked)
    (hcut : Cut s.content s.rdTotalPos got) :
    Cut s.content s.blockLineParse
      (got ++ [(s.content.drop s.rdTotalPos).take (s.blockLinePos - s.rdTotalPos)]) := by
  intro next hfits
  have hle := h.le
  have hlt := h.lt
  have hlen := Stream.length_content s.toStream
  have hgetElem : ∀ {i}, i < s.wrTotalPos → (s.content ++ next)[i]? = some (s.byteAt i) := by
    intro i hi
    rw [List.getElem?_append_left (by simpa using hi), Stream.content_getElem? hi]
  have hline : ∀ i, s.rdTotalPos ≤ i → i < s.blockLinePos → ∀ x,
      (s.content ++ next)[i]? = some x → ¬ IsEnd cr lf x := by
    intro i hri hi x hx
    rw [hgetElem (by omega)] at hx
    cases hx
    exact h.line i hri hi
  have htake : ((s.content ++ next).drop s.rdTotalPos).take (s.blockLinePos - s.rdTotalPos) =
      (s.content.drop s.rdTotalPos).take (s.blockLinePos - s.rdTotalPos) := by
    rw [List.drop_append_of_le_length (by omega), List.take_append_of_le_length]
    rw [List.length_drop]
    omega
  calc lines cr lf (s.content ++ next)
      = got ++ lines cr lf ((s.content ++ next).drop s.rdTotalPos) := by
        refine hcut next ⟨fun hread => absurd hread (by omega), fun hread => absurd hread (by omega)⟩
    _ = got ++ (s.content.drop s.rdTotalPos).take (s.blockLinePos - s.rdTotalPos) ::
          lines cr lf ((s.content ++ next).drop s.blockLineParse) := by
        rw [lines_drop hle (hgetElem hlt) h.ends hline, htake, h.past hfits]
    _ = _ := by rw [List.append_assoc, List.singleton_append]

lemma Inv.readline (h : Inv s got) {line : List UInt8} (hread : s.readline = some (line, t)) :
    Inv t (got ++ [line]) ∧ t.content = s.content := by
  unfold LineStream.readline at hread
  split at hread
  · cases hread
  · rename_i hline
    have hmarked := h.marked (not_not.mp hline)
    have hle := hmarked.le
    have hlt := hmarked.lt
    have hsmall := hmarked.small
    cases hread
    have hbytes : (s.block s.pnodeRd).read s.rdBlockPos (s.blockLinePos - s.rdBlockPos) =
        (s.content.drop s.rdTotalPos).take (s.blockLinePos - s.rdTotalPos) := by
      rw [h.node, h.pos, Stream.read_block _ 0 _ _ (by omega) (by omega), Nat.zero_mul,
        Nat.zero_add]
    refine ⟨⟨⟨h.valid.node, h.valid.pos, h.valid.lt⟩, h.node, rfl, le_rfl, h.small, h.parse, ?_, ?_, ?_, ?_, ?_⟩, rfl⟩
    · rw [hbytes]
      exact hmarked.cut h.cut
    · exact fun _ i hri hi => absurd hri (not_le.mpr hi)
    · exact fun _ _ => rfl
    · exact fun hno => by cases hno
    · exact fun hno => by cases hno

/-! ### Runs -/

/-- There is room for what is written, and it does not change how the text taken ends. -/
def Admitted (x : LineStream × List (List UInt8)) (a : Act) : Prop := a.Room x.1 ∧ a.Fits x.1

lemma actStep_keeps (x : LineStream × List (List UInt8)) (text : List UInt8) (a : Act)
    (y : LineStream × List (List UInt8)) (h : Inv x.1 x.2 ∧ x.1.content = text)
    (hadmits : Admitted x a) (hstep : ActStep x a y) :
    Inv y.1 y.2 ∧ y.1.content = text ++ a.written := by
  obtain ⟨s, got⟩ := x
  obtain ⟨t, got'⟩ := y
  obtain ⟨line, hact, hgot⟩ := hstep
  obtain ⟨hinv, rfl⟩ := h
  dsimp only at hact hgot hinv ⊢
  rw [hgot]
  cases a with
  | write bytes =>
    rw [act] at hact
    cases hwrite : s.toStream.write bytes with
    | none =>
      rw [hwrite] at hact
      cases hact
    | some u =>
      rw [hwrite] at hact
      cases hact
      rw [List.append_nil]
      exact hinv.write hadmits.1 hwrite hadmits.2
  | mark =>
    cases hact
    rw [List.append_nil]
    obtain ⟨hmark, hstream, -⟩ := hinv.tryMarkLine
    refine ⟨hmark, ?_⟩
    rw [hstream]
    exact (List.append_nil _).symm
  | readline =>
    rw [act] at hact
    cases hread : s.readline with
    | none =>
      rw [hread] at hact
      cases hact
      rw [List.append_nil]
      exact ⟨hinv, (List.append_nil _).symm⟩
    | some r =>
      rw [hread] at hact
      cases hact
      obtain ⟨hnext, hcontent⟩ := hinv.readline hread
      exact ⟨hnext, hcontent.trans (List.append_nil _).symm⟩

lemma Inv.first (h : Inv s got) : got <+: lines cr lf s.content := by
  have hcut := h.cut [] (fits_nil _ _)
  rw [List.append_nil] at hcut
  rw [hcut]
  exact List.prefix_append _ _

lemma Inv.complete (h : Inv s got) (hnone : s.lineResult = .unavailable)
    (hall : s.wrTotalPos ≤ s.blockLineParse) : got = lines cr lf s.content := by
  have hcut := h.cut [] (fits_nil _ _)
  rw [List.append_nil] at hcut
  rw [hcut, lines_none, List.append_nil]
  intro c hc
  obtain ⟨i, hi, rfl⟩ := List.getElem_of_mem hc
  rw [List.length_drop, Stream.length_content] at hi
  have hget := Stream.content_getElem? (show s.rdTotalPos + i < s.wrTotalPos by omega)
  rw [List.getElem_drop]
  rw [List.getElem?_eq_getElem (by rw [Stream.length_content]; omega)] at hget
  rw [Option.some.inj hget]
  refine h.scanned ?_ _ (Nat.le_add_right _ _) (by omega) (by omega)
  rw [hnone]
  exact fun hno => by cases hno

/-- **Lines**: as long as what is written next does not change how the text that has been taken
ends, the lines returned are the first ones of all that has been written, however it has been split
and whenever it has been marked. They are all of them if a mark finds no other, and a mark fails
only if the first block is full but for one byte. -/
theorem lines_of_run (b : Block) (allocator : List Block) (acts : List Act) (s : LineStream)
    (got : List (List UInt8))
    (h : Run Admitted ActStep (streamInit b allocator, []) acts (s, got)) :
    got <+: lines cr lf (acts.flatMap Act.written) ∧
      (s.tryMarkLine.lineResult = .unavailable → got = lines cr lf (acts.flatMap Act.written)) ∧
      (s.tryMarkLine.lineResult = .fail →
        streamBlockSize - 1 ≤ (acts.flatMap Act.written).length) := by
  obtain ⟨hinv, hcontent⟩ := h.simulates actStep_keeps ⟨inv_streamInit b allocator, rfl⟩
  rw [List.foldl_append_eq_append] at hcontent
  have htext : s.content = acts.flatMap Act.written := hcontent
  obtain ⟨hmark, hstream, hall⟩ := hinv.tryMarkLine
  have hmarked : s.tryMarkLine.content = acts.flatMap Act.written := by
    rw [hstream, htext]
  have hlen : s.tryMarkLine.wrTotalPos = (acts.flatMap Act.written).length := by
    rw [← hmarked, Stream.length_content]
  refine ⟨htext ▸ hinv.first, fun hnone => ?_, fun hfail => ?_⟩
  · rw [← hmarked]
    refine hmark.complete hnone ?_
    rw [hstream]
    exact hall hnone
  · rw [← hlen]
    exact hmark.failed hfail

lemma run_of_act {x y : LineStream × List (List UInt8)} {a : Act} {acts : List Act}
    {t : LineStream} {line : List (List UInt8)}
    {admits : LineStream × List (List UInt8) → Act → Prop} (hadmits : admits x a)
    (hact : x.1.act a = some (t, line)) (h : Run admits ActStep (t, x.2 ++ line) acts y) :
    Run admits ActStep x (a :: acts) y :=
  .cons hadmits ⟨line, hact, rfl⟩ h

/-- A carriage return behind one byte, in a block of zeros. -/
def crReceived : LineStream :=
  { streamInit (fun _ => 0) [] with
    toStream := ((Stream.streamInit (fun _ => 0) []).put [97, 13]).forwardWritingPtr 2 }

/-- The line has been read. -/
def crRead : LineStream :=
  { crReceived with
    lineResult := .unavailable
    blockLineParse := 2
    blockLinePos := 1
    rdBlockPos := 2
    rdTotalPos := 2 }

lemma act_crReceived :
    (streamInit (fun _ => 0) []).act (.write [97, 13]) = some (crReceived, []) := by
  have hwrite : (streamInit (fun _ => 0) []).toStream.write [97, 13] =
      some (((Stream.streamInit (fun _ => 0) []).put [97, 13]).forwardWritingPtr 2) :=
    Stream.write_of_le (by simp) (by decide)
  rw [act, hwrite]
  rfl

lemma act_crRead : crReceived.tryMarkLine.act .readline = some (crRead, [[97]]) := rfl

lemma room_crReceived : (Act.write [97, 13]).Room (streamInit (fun _ => 0) []) :=
  show 0 + 2 < Stream.capacity _ by decide

theorem lines_of_run_read :
    Run Admitted ActStep (streamInit (fun _ => 0) [], []) [.write [97, 13], .mark, .readline]
        (crRead, [[97]]) ∧
      [[97]] <+: lines cr lf [97, 13] := by
  have hfits : (Act.write [97, 13]).Fits (streamInit (fun _ => 0) []) :=
    ⟨fun h => absurd h (by decide), fun _ h => absurd h (by decide)⟩
  have hrun : Run Admitted ActStep (streamInit (fun _ => 0) [], [])
      [.write [97, 13], .mark, .readline] (crRead, [[97]]) :=
    run_of_act ⟨room_crReceived, hfits⟩ act_crReceived
      (run_of_act ⟨trivial, trivial⟩ rfl (run_of_act ⟨trivial, trivial⟩ act_crRead (.nil _)))
  exact ⟨hrun, (lines_of_run _ _ _ _ _ hrun).1⟩

/-- A line that ends in the last byte of the first block. -/
def longLine : List UInt8 := List.replicate (streamBlockSize - 1) 0 ++ [lf]

lemma lines_longLine : lines cr lf longLine = [List.replicate (streamBlockSize - 1) 0] := by
  have hzero : ∀ c ∈ List.replicate (streamBlockSize - 1) (0 : UInt8), ¬ IsEnd cr lf c := by
    intro c hc
    rw [List.eq_of_mem_replicate hc]
    decide
  have hafter : after cr lf lf [] = [] := rfl
  rw [longLine, lines_append hzero (.inr rfl), hafter, lines_nil]

@[simp] lemma length_longLine : longLine.length = streamBlockSize := by
  rw [longLine, List.length_append, List.length_replicate]
  rfl

lemma fail_of_longLine (hresult : s.lineResult = .unavailable) (hparse : s.blockLineParse = 0)
    (hvalid : s.Valid) (hnode : s.pnodeRd = 0) (hcontent : s.content = longLine) :
    s.tryMarkLine.lineResult = .fail := by
  have hlen : s.wrTotalPos = streamBlockSize := by
    rw [← Stream.length_content, hcontent, length_longLine]
  have hwr : s.pnodeWr ≠ 0 := by
    rw [hvalid.node, hlen]
    decide
  have hbyte : ∀ i < streamBlockSize - 1, s.block 0 i = 0 := by
    intro i hi
    have hget := Stream.content_getElem? (show i < s.wrTotalPos by omega)
    rw [hcontent, longLine, List.getElem?_append_left (by simpa using hi),
      List.getElem?_replicate_of_lt hi, byteAt_first s.toStream (by omega)] at hget
    exact (Option.some.inj hget).symm
  have hlast : s.block 0 (streamBlockSize - 1) = lf := by
    have hget := Stream.content_getElem? (show streamBlockSize - 1 < s.wrTotalPos by
      rw [hlen]
      decide)
    rw [hcontent, longLine, List.getElem?_append_right (by simp), List.length_replicate,
      Nat.sub_self, byteAt_first s.toStream (by decide)] at hget
    exact (Option.some.inj hget).symm
  unfold LineStream.tryMarkLine
  rw [if_neg (by rw [hresult]; decide), hparse, if_neg (show (0 : ℕ) ≠ streamBlockSize by decide),
    if_neg (not_not.mpr hnode), if_neg hwr]
  dsimp only
  rw [Nat.sub_zero]
  rcases scanLine_cases (s.block 0) 0 streamBlockSize with
    ⟨-, hnone⟩ | ⟨j, -, hjlt, -, hend, ⟨-, hscan⟩ | ⟨hsoon, -⟩⟩
  · exact absurd (.inr hlast) (hnone (streamBlockSize - 1) (Nat.zero_le _) (by decide))
  · rw [hscan]
  · have hblock : 2 ≤ streamBlockSize := by decide
    rw [hbyte j (by omega)] at hend
    exact absurd hend (by decide)

lemma lines_crReceived : lines cr lf [97, 13, 10] = [[97]] := by
  have hline : lines cr lf ([97] ++ 13 :: [10]) = [97] :: lines cr lf [] :=
    lines_append (List.forall_mem_singleton.2 (by decide)) (.inl rfl)
  rw [lines_nil] at hline
  exact hline

/-- A line that ends in the last byte of the block is not found, and one that is written up to its
carriage return is read before its line feed comes, which is then a line of its own. -/
theorem not_lines_of_run :
    (∃ s, Run (fun x a => a.Room x.1) ActStep (streamInit (fun _ => 0) [fun _ => 0], [])
        [.write longLine] (s, []) ∧
      s.tryMarkLine.lineResult = .fail ∧ [] ≠ lines cr lf longLine) ∧
    ∃ s, Run (fun x a => a.Room x.1) ActStep (streamInit (fun _ => 0) [], [])
        [.write [97, 13], .mark, .readline, .write [10], .mark, .readline] (s, [[97], []]) ∧
      s.tryMarkLine.lineResult = .unavailable ∧ [[97], []] ≠ lines cr lf [97, 13, 10] := by
  constructor
  · have hroom : (Stream.streamInit (fun _ => 0) [fun _ => 0]).wrTotalPos + longLine.length <
        (Stream.streamInit (fun _ => 0) [fun _ => 0]).capacity := by
      rw [length_longLine]
      decide
    have hadmits : (Act.write longLine).Room (streamInit (fun _ => 0) [fun _ => 0]) := by
      rw [Act.Room, length_longLine]
      decide
    obtain ⟨u, hwrite, hvalid, hcontent, -⟩ := Stream.exists_write
      (Stream.holds_streamInit (fun _ => 0) [fun _ => 0]).valid longLine hroom
    have hact : (streamInit (fun _ => 0) [fun _ => 0]).act (.write longLine) =
        some ({ streamInit (fun _ => 0) [fun _ => 0] with toStream := u }, []) := by
      have hwrite' : (streamInit (fun _ => 0) [fun _ => 0]).toStream.write longLine = some u :=
        hwrite
      rw [act, hwrite', Option.map_some]
    refine ⟨{ streamInit (fun _ => 0) [fun _ => 0] with toStream := u },
      run_of_act hadmits hact (.nil _), fail_of_longLine rfl rfl hvalid ?_ hcontent, ?_⟩
    · exact (Stream.sameReader_write hwrite).1
    · rw [lines_longLine]
      exact (List.cons_ne_nil _ _).symm
  · have hwrite : crRead.act (.write [10]) = some
        ({ crRead with toStream := (crRead.toStream.put [10]).forwardWritingPtr 1 }, []) := by
      rw [act, Stream.write_of_le (by simp) (by decide)]
      rfl
    refine ⟨_, run_of_act room_crReceived act_crReceived (run_of_act trivial rfl
      (run_of_act trivial act_crRead (run_of_act (show 2 + 1 < Stream.capacity _ by decide) hwrite
        (run_of_act trivial rfl (run_of_act trivial rfl (.nil _)))))), rfl, ?_⟩
    intro hlines
    exact absurd (hlines.trans lines_crReceived) (by decide)

end LineStream

end SteepSystem.Streams
