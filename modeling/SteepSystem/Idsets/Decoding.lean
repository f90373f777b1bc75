import Mathlib.Logic.Relation
import SteepSystem.Idsets.Globset

/-!
What the decoder of a globset reads, command by command, and what it puts into its six common
bytes. No command looks at how many bytes are left, and a push is measured after it has been made.
-/

namespace SteepSystem.Idsets.Globset

open SteepSystem.Lib.Bytes SteepSystem.Lib.Ranges SteepSystem.RopUtil SteepSystem.Idsets.Model

/-- Where the decoder stands: the offset, the bytes from there on and the stack. -/
structure Position where
  offset : ℕ
  bytes : List UInt8
  stack : List (List UInt8)

namespace Position

def start (bytes : List UInt8) : Position := ⟨0, bytes, []⟩

def common (p : Position) : List UInt8 := p.stack.reverse.flatten

/-- How many bytes a command reads behind itself. -/
def needs (command : UInt8) (stackLength : ℕ) : ℕ :=
  if command = 0 then 0
  else if command ≤ 6 then command.toNat
  else if command = 0x42 then 2
  else if command = 0x52 then if 5 < stackLength then 0 else 2 * (6 - stackLength)
  else 0

/-- How many of the common bytes are written for a command. -/
def written (command : UInt8) (stackLength : ℕ) : ℕ :=
  if command = 0 then 0
  else if command ≤ 6 then stackLength + command.toNat
  else if command = 0x42 then if stackLength = 5 then 6 else stackLength
  else if command = 0x52 then if 5 < stackLength then stackLength else 6
  else 0

/-- The offsets at which a turn reads. -/
def reads (p : Position) : List ℕ :=
  match p.bytes with
  | [] => []
  | command :: _ => List.range' p.offset (1 + needs command p.common.length)

/-- The places of the common bytes at which it writes. -/
def writes (p : Position) : List ℕ :=
  match p.bytes with
  | [] => []
  | command :: _ => List.range (written command p.common.length)

/-- Where the next turn begins, if the loop goes on and all that has been read is there. -/
def turn (p : Position) : Option Position :=
  match p.bytes with
  | [] => none
  | command :: bytes =>
    if command = 0 then none
    else if command ≤ 6 then
      let length := command.toNat
      let pushed := p.common ++ bytes.take length
      if bytes.length < length then none
      else if pushed.length = 6 then some ⟨p.offset + 1 + length, bytes.drop length, p.stack⟩
      else if 6 < pushed.length then none
      else some ⟨p.offset + 1 + length, bytes.drop length, bytes.take length :: p.stack⟩
    else if command = 0x42 then
      match bytes with
      | _ :: _ :: bytes =>
        if p.common.length ≠ 5 then none else some ⟨p.offset + 3, bytes, p.stack⟩
      | _ => none
    else if command = 0x50 then some ⟨p.offset + 1, bytes, p.stack.tail⟩
    else if command = 0x52 then
      if 5 < p.common.length then none
      else
        let length := 6 - p.common.length
        if bytes.length < 2 * length then none
        else some ⟨p.offset + 1 + 2 * length, bytes.drop (2 * length), p.stack⟩
    else some ⟨p.offset + 1, bytes, p.stack⟩

/-- The ranges that a turn adds. -/
def ranges (p : Position) : List RangeNode :=
  match p.bytes with
  | [] => []
  | command :: bytes =>
    if command = 0 then []
    else if command ≤ 6 then
      let pushed := p.common ++ bytes.take command.toNat
      if pushed.length = 6 then [⟨ropUtilGcToValue pushed, ropUtilGcToValue pushed⟩] else []
    else if command = 0x42 then
      match bytes with
      | startValue :: bitmask :: _ =>
        if p.common.length ≠ 5 then []
        else bitmaskRanges (ropUtilGcToValue (p.common ++ [startValue])) bitmask
      | _ => []
    else if command = 0x52 then
      if 5 < p.common.length then []
      else
        let length := 6 - p.common.length
        [⟨ropUtilGcToValue (p.common ++ bytes.take length),
          ropUtilGcToValue (p.common ++ (bytes.drop length).take length)⟩]
    else []

/-- The first value of a range command is not greater than the second one. -/
def Ordered (p : Position) : Prop :=
  ∀ bytes, p.bytes = 0x52 :: bytes → p.common.length ≤ 5 →
    ropUtilGcToValue (p.common ++ bytes.take (6 - p.common.length)) ≤
      ropUtilGcToValue (p.common ++ (bytes.drop (6 - p.common.length)).take (6 - p.common.length))

/-- Nothing is read at `cb` or beyond, nor written beyond the common bytes. -/
structure Safe (cb : ℕ) (p : Position) : Prop where
  reads : ∀ i ∈ p.reads, i < cb
  writes : ∀ j ∈ p.writes, j < 6

/-- The bytes of the command are there, and what a push makes of the stack is not longer than a
value. -/
def Fits (p : Position) : Prop :=
  ∀ command bytes, p.bytes = command :: bytes →
    needs command p.common.length ≤ bytes.length ∧
      (1 ≤ command → command ≤ 6 → p.common.length + command.toNat ≤ 6)

def Reach : Position → Position → Prop := Relation.ReflTransGen fun p q => p.turn = some q

variable {p q : Position}

lemma reach_all {Q : Position → Prop} (h : p.turn = some q) :
    (∀ r, Reach p r → Q r) ↔ Q p ∧ ∀ r, Reach q r → Q r := by
  constructor
  · intro hall
    exact ⟨hall p .refl, fun r hr => hall r (.head h hr)⟩
  · rintro ⟨hp, hq⟩ r hr
    rcases Relation.ReflTransGen.cases_head hr with rfl | ⟨s, hs, hr⟩
    · exact hp
    · obtain rfl := Option.some.inj (h.symm.trans hs)
      exact hq r hr

lemma reach_end {Q : Position → Prop} (h : p.turn = none) : (∀ r, Reach p r → Q r) ↔ Q p := by
  constructor
  · exact fun hall => hall p .refl
  · intro hp r hr
    rcases Relation.ReflTransGen.cases_head hr with rfl | ⟨s, hs, -⟩
    · exact hp
    · rw [h] at hs
      cases hs

/-- The decoding comes to an end command, the byte before `offset`. -/
def EndsAt (p : Position) (offset : ℕ) : Prop :=
  ∃ q, Reach p q ∧ (∃ bytes, q.bytes = 0 :: bytes) ∧ offset = q.offset + 1

def Ends (p : Position) : Prop := ∃ offset, EndsAt p offset

lemma endsAt_turn {o : ℕ} (h : p.turn = some q) : EndsAt p o ↔ EndsAt q o := by
  constructor
  · rintro ⟨r, hr, ⟨bytes, hb⟩, ho⟩
    rcases Relation.ReflTransGen.cases_head hr with rfl | ⟨s, hs, hr⟩
    · simp [turn, hb] at h
    · obtain rfl := Option.some.inj (h.symm.trans hs)
      exact ⟨r, hr, ⟨bytes, hb⟩, ho⟩
  · rintro ⟨r, hr, hb⟩
    exact ⟨r, .head h hr, hb⟩

lemma endsAt_end {o : ℕ} (h : p.turn = none) :
    EndsAt p o ↔ (∃ bytes, p.bytes = 0 :: bytes) ∧ o = p.offset + 1 := by
  constructor
  · rintro ⟨r, hr, hb⟩
    rcases Relation.ReflTransGen.cases_head hr with rfl | ⟨s, hs, -⟩
    · exact hb
    · rw [h] at hs
      cases hs
  · exact fun hb => ⟨p, .refl, hb⟩

/-- What a turn keeps: no byte is lost, and the stack is shorter than a value. -/
structure Inv (cb : ℕ) (p : Position) : Prop where
  length : p.offset + p.bytes.length = cb
  common : p.common.length ≤ 5

lemma length_common_tail (p : Position) :
    p.stack.tail.reverse.flatten.length ≤ p.common.length := by
  rw [common]
  cases p.stack with
  | nil => exact le_rfl
  | cons s stack =>
    rw [List.tail_cons, List.reverse_cons, List.flatten_append, List.length_append]
    omega

lemma turn_cases (h : p.turn = some q) :
    q.offset + q.bytes.length = p.offset + p.bytes.length ∧ q.bytes.length < p.bytes.length ∧
      (p.common.length ≤ 5 → q.common.length ≤ 5) := by
  rw [turn] at h
  cases hb : p.bytes with
  | nil =>
    rw [hb] at h
    cases h
  | cons command bytes =>
    rw [hb] at h
    dsimp only at h
    rw [List.length_cons]
    by_cases h0 : command = 0
    · rw [if_pos h0] at h
      cases h
    rw [if_neg h0] at h
    by_cases h6 : command ≤ 6
    · rw [if_pos h6] at h
      split_ifs at h with hlt heq hlong
      · cases h
        simp only [List.length_drop]
        exact ⟨by omega, by omega, id⟩
      · cases h
        have hcommon : (p.common ++ bytes.take command.toNat).length ≤ 5 := by omega
        simp only [List.length_drop]
        refine ⟨by omega, by omega, fun _ => ?_⟩
        rwa [common, List.reverse_cons, List.flatten_append, List.flatten_singleton]
    rw [if_neg h6] at h
    by_cases h42 : command = 0x42
    · rw [if_pos h42] at h
      rcases bytes with _ | ⟨startValue, _ | ⟨bitmask, bytes⟩⟩
      · cases h
      · cases h
      · dsimp only at h
        split_ifs at h
        cases h
        simp only [List.length_cons]
        exact ⟨by omega, by omega, id⟩
    rw [if_neg h42] at h
    by_cases h50 : command = 0x50
    · rw [if_pos h50] at h
      cases h
      exact ⟨by dsimp only; omega, by dsimp only; omega, p.length_common_tail.trans⟩
    rw [if_neg h50] at h
    split_ifs at h with h52 h5 hshort
    · cases h
      simp only [List.length_drop]
      exact ⟨by omega, by omega, id⟩
    · cases h
      exact ⟨by dsimp only; omega, by dsimp only; omega, id⟩

lemma Inv.reach {cb : ℕ} (h : Inv cb p) (hr : Reach p q) : Inv cb q := by
  induction hr with
  | refl => exact h
  | tail _ hturn ih =>
    obtain ⟨hlen, -, hcommon⟩ := turn_cases hturn
    exact ⟨hlen.trans ih.length, hcommon ih.common⟩

lemma inv_start (bytes : List UInt8) : Inv bytes.length (start bytes) :=
  ⟨Nat.zero_add _, Nat.zero_le _⟩

/-- A turn is safe exactly if its command fits. -/
lemma Inv.safe_iff {cb : ℕ} (h : Inv cb p) : p.Safe cb ↔ p.Fits := by
  have hlength := h.length
  have hcommon := h.common
  constructor
  · rintro ⟨hreads, hwrites⟩ command bytes hb
    rw [hb, List.length_cons] at hlength
    rw [reads, hb] at hreads
    rw [writes, hb] at hwrites
    dsimp only at hreads hwrites
    refine ⟨?_, fun h1 h6 => ?_⟩
    · have := hreads (p.offset + needs command p.common.length) (by
        rw [List.mem_range'_1]
        omega)
      omega
    · have hw : written command p.common.length = p.common.length + command.toNat := by
        have hne : command ≠ 0 := by
          rintro rfl
          exact absurd h1 (by decide)
        rw [written, if_neg hne, if_pos h6]
      rw [hw] at hwrites
      have hpos : 1 ≤ command.toNat := h1
      have := hwrites (p.common.length + command.toNat - 1) (by
        rw [List.mem_range]
        omega)
      omega
  · intro hfits
    cases hb : p.bytes with
    | nil => exact ⟨by simp [reads, hb], by simp [writes, hb]⟩
    | cons command bytes =>
      obtain ⟨hneeds, hpush⟩ := hfits command bytes hb
      rw [hb, List.length_cons] at hlength
      refine ⟨fun i hi => ?_, fun j hj => ?_⟩
      · rw [reads, hb] at hi
        dsimp only at hi
        rw [List.mem_range'_1] at hi
        omega
      · rw [writes, hb] at hj
        dsimp only at hj
        rw [List.mem_range] at hj
        unfold written at hj
        split_ifs at hj with h0 h6
        · omega
        · have h1 : 1 ≤ command := by
            have : command.toNat ≠ 0 := fun hz => h0 (UInt8.toNat_inj.mp hz)
            rw [UInt8.le_iff_toNat_le]
            simp only [UInt8.reduceToNat]
            omega
          have := hpush h1 h6
          omega
        all_goals omega

/-! The loop of the decoder, turn by turn. -/

variable {globset : List RangeNode} {fuel : ℕ}

lemma decodingLoop_turn (h : p.turn = some q) :
    decodingLoop (fuel + 1) p.bytes p.offset p.stack globset =
      decodingLoop fuel q.bytes q.offset q.stack (globset ++ p.ranges) := by
  have hc : p.stack.reverse.flatten = p.common := rfl
  rw [turn] at h
  rw [ranges]
  cases hb : p.bytes with
  | nil =>
    rw [hb] at h
    cases h
  | cons command bytes =>
    rw [hb] at h
    simp only [decodingLoop]
    rw [hc]
    dsimp only at h ⊢
    by_cases h0 : command = 0
    · rw [if_pos h0] at h
      cases h
    rw [if_neg h0] at h
    rw [if_neg h0, if_neg h0]
    by_cases h6 : command ≤ 6
    · rw [if_pos h6] at h
      rw [if_pos h6, if_pos h6]
      split_ifs at h ⊢ with hlt heq hlong
      · cases h
        rfl
      · cases h
        rw [List.append_nil]
    rw [if_neg h6] at h
    rw [if_neg h6, if_neg h6]
    by_cases h42 : command = 0x42
    · rw [if_pos h42] at h
      rw [if_pos h42, if_pos h42]
      rcases bytes with _ | ⟨startValue, _ | ⟨bitmask, bytes⟩⟩
      · cases h
      · cases h
      · dsimp only at h ⊢
        split_ifs at h with h5
        cases h
        rw [if_neg h5, if_neg h5]
    rw [if_neg h42] at h
    rw [if_neg h42, if_neg h42]
    by_cases h50 : command = 0x50
    · rw [if_pos h50] at h
      cases h
      subst h50
      rw [if_pos rfl, if_neg (by decide), List.append_nil]
    rw [if_neg h50] at h
    rw [if_neg h50]
    split_ifs at h ⊢ with h52 h5 hshort
    · cases h
      rfl
    · cases h
      rw [List.append_nil]

lemma decodingLoop_end (h : p.turn = none) {o : ℕ} {g : List RangeNode} :
    (decodingLoop (fuel + 1) p.bytes p.offset p.stack globset = some (o, g) ∧ o ≠ 0) ↔
      (∃ bytes, p.bytes = 0 :: bytes) ∧ o = p.offset + 1 ∧ g = globset := by
  have hc : p.stack.reverse.flatten = p.common := rfl
  rw [turn] at h
  cases hb : p.bytes with
  | nil =>
    simp only [decodingLoop, Option.some.injEq, Prod.mk.injEq]
    constructor
    · rintro ⟨⟨rfl, -⟩, hne⟩
      exact absurd rfl hne
    · rintro ⟨⟨bytes, hb⟩, -⟩
      cases hb
  | cons command bytes =>
    rw [hb] at h
    simp only [decodingLoop]
    rw [hc]
    dsimp only at h ⊢
    by_cases h0 : command = 0
    · rw [if_pos h0]
      subst h0
      simp only [Option.some.injEq, Prod.mk.injEq, List.cons.injEq, true_and, exists_eq']
      constructor
      · rintro ⟨⟨rfl, rfl⟩, -⟩
        exact ⟨rfl, rfl⟩
      · rintro ⟨rfl, rfl⟩
        exact ⟨⟨rfl, rfl⟩, by omega⟩
    rw [if_neg h0] at h ⊢
    have hno : ¬ ∃ rest, command :: bytes = 0 :: rest := by
      rintro ⟨rest, hrest⟩
      exact h0 (List.cons.inj hrest).1
    rw [iff_false_intro hno, false_and, iff_false]
    rintro ⟨hloop, hne⟩
    by_cases h6 : command ≤ 6
    · rw [if_pos h6] at h hloop
      split_ifs at h hloop with hlt heq hlong
      cases hloop
      exact hne rfl
    rw [if_neg h6] at h hloop
    by_cases h42 : command = 0x42
    · rw [if_pos h42] at h hloop
      rcases bytes with _ | ⟨startValue, _ | ⟨bitmask, bytes⟩⟩
      · cases hloop
      · cases hloop
      · dsimp only at h hloop
        split_ifs at h with h5
        rw [if_pos h5] at hloop
        cases hloop
        exact hne rfl
    rw [if_neg h42] at h hloop
    split_ifs at h hloop with h50 h52 h5 hshort
    cases hloop
    exact hne rfl

/-- The decoding returns the offset behind an end command exactly if it comes to one, and then the
ranges that the turns on the way have added. -/
lemma decodingLoop_spec {P : RangeNode → Prop} (hfuel : p.bytes.length ≤ fuel) :
    (∀ o, EndsAt p o ↔
      ∃ g, decodingLoop fuel p.bytes p.offset p.stack globset = some (o, g) ∧ o ≠ 0) ∧
      ∀ o g, decodingLoop fuel p.bytes p.offset p.stack globset = some (o, g) → o ≠ 0 →
        ((∀ r ∈ g, P r) ↔ (∀ r ∈ globset, P r) ∧ ∀ q, Reach p q → ∀ r ∈ q.ranges, P r) := by
  induction fuel generalizing p globset with
  | zero =>
    have hnil : p.bytes = [] := List.length_eq_zero_iff.mp (Nat.le_zero.mp hfuel)
    have hturn : p.turn = none := by simp [turn, hnil]
    rw [hnil, decodingLoop]
    refine ⟨fun o => ?_, ?_⟩
    · rw [endsAt_end hturn, hnil]
      constructor
      · rintro ⟨⟨bytes, hb⟩, -⟩
        cases hb
      · rintro ⟨g, hloop, hne⟩
        cases hloop
        exact absurd rfl hne
    · rintro o g hloop hne
      cases hloop
      exact absurd rfl hne
  | succ fuel ih =>
    cases hturn : p.turn with
    | none =>
      refine ⟨fun o => ?_, fun o g hloop hne => ?_⟩
      · rw [endsAt_end hturn]
        constructor
        · rintro ⟨hb, rfl⟩
          exact ⟨globset, (decodingLoop_end hturn).mpr ⟨hb, rfl, rfl⟩⟩
        · rintro ⟨g, hloop⟩
          obtain ⟨hb, ho, -⟩ := (decodingLoop_end hturn).mp hloop
          exact ⟨hb, ho⟩
      · obtain ⟨⟨bytes, hb⟩, -, rfl⟩ := (decodingLoop_end hturn).mp ⟨hloop, hne⟩
        rw [reach_end hturn]
        simp [ranges, hb]
    | some q =>
      have hlt := (turn_cases hturn).2.1
      rw [decodingLoop_turn hturn]
      obtain ⟨hends, hranges⟩ := @ih q (globset ++ p.ranges) (by omega)
      refine ⟨fun o => (endsAt_turn hturn).trans (hends o), fun o g hloop hne => ?_⟩
      rw [hranges o g hloop hne, reach_all hturn, List.forall_mem_append, and_assoc]

/-- A bitmask only widens the range that is open, and opens the next one with a single value. -/
lemma le_of_mem_bitmaskRanges {lowValue : ℕ} {bitmask : UInt8} {r : RangeNode}
    (h : r ∈ bitmaskRanges lowValue bitmask) : r.low ≤ r.high := by
  let Open (s : List RangeNode × Option RangeNode) : Prop :=
    (∀ r ∈ s.1, r.low ≤ r.high) ∧ ∀ r ∈ s.2, r.low ≤ r.high
  have hclose {s : List RangeNode × Option RangeNode} (hs : Open s) :
      ∀ r ∈ s.1 ++ s.2.toList, r.low ≤ r.high := by
    intro r hr
    rcases List.mem_append.mp hr with hr | hr
    · exact hs.1 r hr
    · exact hs.2 r (Option.mem_toList.mp hr)
  refine hclose (List.foldlRecOn (motive := Open) _ _ ?_ ?_) r h
  · exact ⟨by simp, by simp⟩
  · intro s hs i _
    dsimp only
    split
    · rcases s with ⟨ranges, _ | r⟩
      · exact ⟨hs.1, by simp⟩
      · have hr : r.low ≤ r.high := hs.2 r rfl
        exact ⟨hs.1, by simpa using hr.trans (Nat.le_succ _)⟩
    · exact ⟨hclose hs, by simp⟩

/-- Only a range command can add a range whose end is below its beginning. -/
lemma ordered_iff (p : Position) : (∀ r ∈ p.ranges, r.low ≤ r.high) ↔ p.Ordered := by
  rw [ranges, Ordered]
  cases hb : p.bytes with
  | nil => simp
  | cons command bytes =>
    dsimp only
    by_cases h52 : command = 0x52
    · subst h52
      rw [if_neg (by decide), if_neg (by decide), if_neg (by decide), if_pos rfl]
      by_cases h5 : 5 < p.common.length
      · rw [if_pos h5]
        simp [Nat.not_le.mpr h5]
      · rw [if_neg h5]
        simp [Nat.not_lt.mp h5]
    · refine iff_of_true ?_ (fun _ h => absurd (List.cons.inj h).1 h52)
      intro r hr
      by_cases h42 : command = 0x42
      · subst h42
        rw [if_neg (by decide), if_neg (by decide), if_pos rfl] at hr
        rcases bytes with _ | ⟨startValue, _ | ⟨bitmask, bytes⟩⟩
        · simp at hr
        · simp at hr
        · dsimp only at hr
          split_ifs at hr
          · simp at hr
          · exact le_of_mem_bitmaskRanges hr
      · split_ifs at hr with h0 h6 heq
        · simp at hr
        · rw [List.mem_singleton.mp hr]
        · simp at hr
        · simp at hr

lemma acc_turn (p : Position) : Acc (fun q p : Position => p.turn = some q) p := by
  induction hn : p.bytes.length using Nat.strongRecOn generalizing p with
  | ind n ih =>
    subst hn
    exact ⟨p, fun q hturn => ih _ (turn_cases hturn).2.1 q rfl⟩

end Position

open Position

/-- What a call of `idset_decoding_globset` should guarantee: it stops, no turn reads or writes
out of bounds, and if it succeeds every range is in order. -/
structure Sound (bytes : List UInt8) : Prop where
  stops : Acc (fun q p : Position => p.turn = some q) (start bytes)
  safe : ∀ q, Reach (start bytes) q → q.Safe bytes.length
  ordered : ∀ o g, idsetDecodingGlobset bytes = some (o, g) → o ≠ 0 → ∀ r ∈ g, r.low ≤ r.high

/-- All commands fit and, if there is an end command, all ranges up to it are in order. -/
structure WellFormed (bytes : List UInt8) : Prop where
  fits : ∀ q, Reach (start bytes) q → q.Fits
  ordered : Ends (start bytes) → ∀ q, Reach (start bytes) q → q.Ordered

lemma safe_iff_fits (bytes : List UInt8) :
    (∀ q, Reach (start bytes) q → q.Safe bytes.length) ↔ ∀ q, Reach (start bytes) q → q.Fits :=
  forall₂_congr fun _ hq => ((inv_start bytes).reach hq).safe_iff

lemma idsetDecodingGlobset_spec (bytes : List UInt8) :
    (∀ o, EndsAt (start bytes) o ↔ ∃ g, idsetDecodingGlobset bytes = some (o, g) ∧ o ≠ 0) ∧
      ∀ o g, idsetDecodingGlobset bytes = some (o, g) → o ≠ 0 →
        ((∀ r ∈ g, r.low ≤ r.high) ↔ ∀ q, Reach (start bytes) q → q.Ordered) := by
  obtain ⟨hends, hranges⟩ :=
    @decodingLoop_spec (start bytes) [] bytes.length (fun r => r.low ≤ r.high) le_rfl
  refine ⟨hends, fun o g h hne => (hranges o g h hne).trans ?_⟩
  rw [and_iff_right (by simp)]
  exact forall₂_congr fun q _ => q.ordered_iff

lemma sound_iff (bytes : List UInt8) : Sound bytes ↔ WellFormed bytes := by
  obtain ⟨hends, hranges⟩ := idsetDecodingGlobset_spec bytes
  constructor
  · rintro ⟨-, hsafe, hordered⟩
    refine ⟨(safe_iff_fits bytes).mp hsafe, fun ⟨o, hend⟩ => ?_⟩
    obtain ⟨g, h, hne⟩ := (hends o).mp hend
    exact (hranges o g h hne).mp (hordered o g h hne)
  · rintro ⟨hfits, hordered⟩
    refine ⟨acc_turn _, (safe_iff_fits bytes).mpr hfits, fun o g h hne => ?_⟩
    exact (hranges o g h hne).mpr (hordered ⟨o, (hends o).mpr ⟨g, h, hne⟩⟩)

end SteepSystem.Idsets.Globset
