import SteepSystem.Lib.CStrings
import SteepSystem.Wildcards.Match

/-!
`wildcard_hierarchy_match` (`LIBRARY/common/util.c`) and its copy in the parser of IMAP commands,
`imap_cmd_parser_wildcard_match`. A percent sign takes what is within one level.

There is one place to go back to for both kinds of wildcards. Going back looks at the character
that comes next, not at the one it passes over, and reads it before it compares the place with
the front.
-/

namespace SteepSystem.Wildcards.Hierarchy

open SteepSystem.Lib.CStrings SteepSystem.Lib.Globs SteepSystem.Lib.Loops
open SteepSystem.Wildcards.Match (WILDS NOMATCH toupper sameChar)

/-- `%` -/
def WILDP : UInt8 := 37

/-- `type`, `lsm` and `lsn`, which are set together. -/
structure Saved where
  type : UInt8
  lsm : List UInt8
  lsn : List UInt8

structure State where
  mask : List UInt8
  data : List UInt8
  ls : Option Saved
  matched : ℕ
  sofar : ℕ

variable (seperator : UInt8) (same : ℕ → UInt8 → UInt8 → Bool)

/-- Back to the saved place, one character further; the next character is read. -/
def State.rewind (s : State) (ls : Saved) : Option State :=
  match ls.lsn with
  | _ :: c :: lsn => some { s with
      mask := ls.lsm
      data := c :: lsn
      ls := if seperator = c ∧ WILDP = ls.type then none else some { ls with lsn := c :: lsn }
      sofar := 0 }
  | _ => none

def isWild (m : UInt8) : Bool := m = WILDS ∨ m = WILDP

/-- The turn from the `switch` on. A character of the mask is compared with one of the data that
stands at a given index. -/
def select (s : State) : Turn State ℕ :=
  match s.mask with
  | [] => .stray
  | m :: mask =>
    if m = WILDS then
      let mask := mask.dropWhile isWild
      if mask = [] then .ret (s.matched + s.sofar)
      else .go ⟨mask, s.data, some ⟨WILDS, mask, s.data⟩, s.matched + s.sofar, 0⟩
    else if m = WILDP then
      let mask := mask.dropWhile (· = WILDP)
      .go ⟨mask, s.data, some ⟨WILDP, mask, s.data⟩, s.matched + s.sofar, 0⟩
    else
      match s.data with
      | [] => .stray
      | c :: data =>
        if same data.length m c then
          .go { s with mask := mask, data := data, sofar := s.sofar + 1 }
        else
          match s.ls with
          | none => .ret NOMATCH
          | some ls =>
            match s.rewind seperator ls with
            | none => .stray
            | some s => .go s

def turn (s : State) : Turn State ℕ :=
  if s.data = [] then
    .ret (if s.mask.dropWhile isWild = [] then s.matched + s.sofar else NOMATCH)
  else if s.mask = [] then
    match s.ls with
    | none => .ret NOMATCH
    | some ls =>
      match s.rewind seperator ls with
      | none => .stray
      | some s => select seperator same s
  else select seperator same s

/-- The state before the loop. -/
def start (data mask : List UInt8) : State := ⟨mask.reverse, data.reverse, none, 1, 0⟩

/-- Both calls; no result when one has not returned within the fuel, or read outside a string. -/
def hierarchyMatch (fuel : ℕ) (data mask : List UInt8) : Option ℕ :=
  if mask = [] ∨ data = [] then some NOMATCH
  else loop (turn seperator same) fuel (start data mask)

def wildcardHierarchyMatch (fuel : ℕ) (data : List UInt8) (seperator : UInt8)
    (mask : List UInt8) (icase : Bool) : Option ℕ :=
  hierarchyMatch seperator (fun _ => sameChar icase) fuel data mask

/-- The first five characters of a name that begins with `INBOX` are compared without case. -/
def imapSame (data : List UInt8) (i : ℕ) (m c : UInt8) : Bool :=
  let icase := casePrefix (bytes "inbox") data
  sameChar (icase && decide (i < 5)) m c

def imapCmdParserWildcardMatch (fuel : ℕ) (data mask : List UInt8) : Option Bool :=
  (hierarchyMatch 47 (imapSame data) fuel data mask).map (· != 0)

/-- What a character of the mask stands for, over characters with their index. -/
def token (m : UInt8) : Token (UInt8 × ℕ) :=
  if m = WILDS then .many fun _ => true
  else if m = WILDP then .many fun x => x.1 != seperator
  else .one fun x => same x.2 m x.1

/-- The language of a mask: an asterisk takes any text, a percent sign any text without a
separator. -/
def Listed (mask data : List UInt8) : Prop :=
  Matches (mask.map (token seperator same)) data.zipIdx

/-- No asterisk, and no percent sign but those next to each other. -/
def OneLevel (mask : List UInt8) : Prop :=
  ∃ a w b, mask = a ++ w ++ b ∧ (∀ m ∈ a, ¬ isWild m) ∧ (∀ m ∈ w, m = WILDP) ∧
    ∀ m ∈ b, ¬ isWild m

/-- The turn goes back, or gives up if there is no place to go back to. -/
def State.Fails (s : State) : Prop :=
  s.data ≠ [] ∧ (s.mask = [] ∨ ∃ m mask c data, s.mask = m :: mask ∧ s.data = c :: data ∧
    ¬ isWild m ∧ ¬ same data.length m c)

/-- To go back there is a character left behind the one that is passed over and a part of the
mask to go on with, and a percent sign does not pass over a separator. To give up, no wildcard
has been met but one percent sign. The mask is read from its end. -/
def State.Ready (mask : List UInt8) (s : State) : Prop :=
  match s.ls with
  | none => OneLevel (mask.take (mask.length - s.mask.length))
  | some ls => 2 ≤ ls.lsn.length ∧ ls.lsm ≠ [] ∧
      (ls.type = WILDP → ls.lsn.head? ≠ some seperator)

/-- What a call has to meet: an empty name is not asked for by wildcards alone, and every turn
that goes back or gives up is ready for it, also where it goes back twice. -/
structure Sound (data mask : List UInt8) : Prop where
  empty : data = [] → ∃ m ∈ mask, ¬ isWild m
  ready : ∀ s, Reached (turn seperator same) (start data mask) s → s.Fails same →
    s.Ready seperator mask.reverse
  again : ∀ s, Reached (turn seperator same) (start data mask) s → s.data ≠ [] → s.mask = [] →
    ∀ ls s', s.ls = some ls → s.rewind seperator ls = some s' → s'.Fails same →
      s'.Ready seperator mask.reverse

variable {seperator same} {M : List UInt8} {D : List (UInt8 × ℕ)} {s : State}

/-- A text read from its end, with the index of each character. -/
def placed : List UInt8 → List (UInt8 × ℕ)
  | [] => []
  | c :: data => (c, data.length) :: placed data

@[simp] lemma length_placed (data : List UInt8) : (placed data).length = data.length := by
  induction data with
  | nil => rfl
  | cons c data ih => rw [placed, List.length_cons, ih, List.length_cons]

lemma placed_reverse (data : List UInt8) : placed data.reverse = data.zipIdx.reverse := by
  induction data using List.reverseRecOn with
  | nil => rfl
  | append_singleton data c ih =>
    rw [List.reverse_append, List.zipIdx_append, List.reverse_append, ← ih]
    simp [placed]

variable (seperator same) in
/-- A mask as a pattern. -/
def pattern (mask : List UInt8) : List (Token (UInt8 × ℕ)) := mask.map (token seperator same)

@[simp] lemma pattern_cons (m : UInt8) (mask : List UInt8) :
    pattern seperator same (m :: mask) =
      token seperator same m :: pattern seperator same mask := rfl

@[simp] lemma pattern_append (a b : List UInt8) : pattern seperator same (a ++ b) =
    pattern seperator same a ++ pattern seperator same b := List.map_append

lemma isWild_iff {m : UInt8} : isWild m = true ↔ m = WILDS ∨ m = WILDP := by simp [isWild]

lemma token_literal {m : UInt8} (h : ¬ isWild m) :
    token seperator same m = .one fun x => same x.2 m x.1 := by
  rw [isWild_iff, not_or] at h
  rw [token, if_neg h.1, if_neg h.2]

lemma token_wildp : token seperator same WILDP = .many fun x => x.1 != seperator := rfl

lemma ones_pattern {mask : List UInt8} :
    ones (pattern seperator same mask) = 0 ↔ ∀ m ∈ mask, isWild m := by
  rw [ones_eq_zero, pattern, List.forall_mem_map]
  refine forall₂_congr fun m _ => ?_
  by_cases hm : isWild m
  · refine iff_of_true ?_ hm
    rcases isWild_iff.mp hm with rfl | rfl
    · exact ⟨_, rfl⟩
    · exact ⟨_, rfl⟩
  · rw [token_literal hm]
    exact iff_of_false (by simp) hm

lemma OneLevel.take {mask : List UInt8} (h : OneLevel mask) (n : ℕ) : OneLevel (mask.take n) := by
  obtain ⟨a, w, b, rfl, ha, hw, hb⟩ := h
  refine ⟨a.take n, w.take (n - a.length), b.take (n - (a ++ w).length), ?_,
    fun m hm => ha m (List.mem_of_mem_take hm), fun m hm => hw m (List.mem_of_mem_take hm),
    fun m hm => hb m (List.mem_of_mem_take hm)⟩
  rw [List.take_append, List.take_append]

/-- Percent signs next to each other are passed over together. -/
lemma zap_percent (mask : List UInt8) : ∃ n, WILDP :: mask =
    List.replicate n WILDP ++ WILDP :: mask.dropWhile (· = WILDP) := by
  induction mask with
  | nil => exact ⟨0, rfl⟩
  | cons m mask ih =>
    by_cases hm : m = WILDP
    · obtain ⟨n, hn⟩ := ih
      refine ⟨n + 1, ?_⟩
      rw [hm, List.dropWhile_cons_of_pos (by simp), List.replicate_succ, List.cons_append, ← hn]
    · exact ⟨0, by rw [List.dropWhile_cons_of_neg (by simpa using hm)]; rfl⟩

/-- How many wildcards are left, how often the last one can be extended, and how far it is to
the front of the mask. -/
def measure (s : State) : ℕ ×ₗ ℕ ×ₗ ℕ :=
  toLex (s.mask.countP isWild, toLex ((s.ls.elim 0 fun ls => ls.lsn.length), s.mask.length))

variable (seperator same M D) in
/-- The search that the variables stand for. Where there is no place to go back to, a match of
the whole is one from here, as long as a single percent sign has been met. -/
structure Inv (s : State) : Prop where
  tally : 1 ≤ s.matched
  suffix : s.mask <:+ M
  search : match s.ls with
    | none => ∃ P sm sd n, Search (pattern seperator same M) D P sm sd
          (pattern seperator same s.mask) (placed s.data) ∧ n + s.mask.length ≤ M.length ∧
        (OneLevel (M.take n) → Matches (pattern seperator same M) D → Matches sm sd)
    | some ls => ls.lsm.countP isWild = s.mask.countP isWild ∧ ls.lsm <:+ M ∧
        (ls.type = WILDP → ∃ K, M = K ++ WILDP :: ls.lsm) ∧
        ∃ P, Search (pattern seperator same M) D P (pattern seperator same ls.lsm)
            (placed ls.lsn) (pattern seperator same s.mask) (placed s.data) ∧
          ∀ x : UInt8 × ℕ, (ls.type = WILDP → x.1 ≠ seperator) → TakesMore P x

lemma Inv.exists_search (h : Inv seperator same M D s) : ∃ P sm sd,
    Search (pattern seperator same M) D P sm sd (pattern seperator same s.mask)
      (placed s.data) := by
  have hs := h.search
  cases hls : s.ls with
  | none =>
    rw [hls] at hs
    obtain ⟨P, sm, sd, _, hs, -⟩ := hs
    exact ⟨P, sm, sd, hs⟩
  | some ls =>
    rw [hls] at hs
    obtain ⟨-, -, -, P, hs, -⟩ := hs
    exact ⟨_, _, _, hs⟩

variable (seperator same M D) in
/-- A returned number says whether the name is in the language. -/
def Says (r : ℕ) : Prop := r ≠ 0 ↔ Matches (pattern seperator same M) D

lemma says_nomatch (h : ¬ Matches (pattern seperator same M) D) :
    Says seperator same M D NOMATCH :=
  iff_of_false (by simp [NOMATCH]) h

/-- The end of the part of a mask with one level. -/
lemma OneLevel.ends {K : List UInt8} (h : OneLevel (K ++ [WILDP])) :
    ∃ a w, K ++ [WILDP] = a ++ w ∧ (∀ m ∈ a, ¬ isWild m) ∧ ∀ m ∈ w, m = WILDP := by
  obtain ⟨a, w, b, heq, ha, hw, hb⟩ := h
  rcases List.eq_nil_or_concat b with rfl | ⟨b, m, rfl⟩
  · exact ⟨a, w, by rw [heq, List.append_nil], ha, hw⟩
  · exfalso
    rw [List.concat_eq_append, ← List.append_assoc] at heq
    obtain ⟨-, hm⟩ := List.append_inj' heq rfl
    refine hb m (by simp) ?_
    rw [← List.singleton_injective hm]
    exact isWild_iff.mpr (.inr rfl)

/-- Going back keeps the search, if it passes over no separator. -/
lemma rewind_inv {ls : Saved} (h : Inv seperator same M D s) (hls : s.ls = some ls)
    (hfit : 2 ≤ ls.lsn.length ∧ ls.lsm ≠ [] ∧
      (ls.type = WILDP → ls.lsn.head? ≠ some seperator))
    (hfail : ¬ Matches (pattern seperator same s.mask) (placed s.data)) :
    ∃ s', s.rewind seperator ls = some s' ∧ s'.mask = ls.lsm ∧ s'.data ≠ [] ∧
      Inv seperator same M D s' ∧ measure s' < measure s := by
  obtain ⟨hlen, hne, hsep⟩ := hfit
  have hs := h.search
  rw [hls] at hs
  obtain ⟨hcount, hsuffix, hlast, P, hs, hmore⟩ := hs
  obtain ⟨type, lsm, lsn⟩ := ls
  match lsn, hlen with
  | x :: c :: lsn, _ =>
    dsimp only at hcount hsuffix hlast hs hsep hmore hne
    have hx : type = WILDP → x ≠ seperator := fun ht he => hsep ht (by rw [he]; rfl)
    have hext := hs.extend (hmore _ hx) hfail
    refine ⟨_, rfl, rfl, by simp, ⟨h.tally, hsuffix, ?_⟩, ?_⟩
    · dsimp only
      by_cases hclose : seperator = c ∧ WILDP = type
      · -- the next character is a separator, so that the percent sign ends here
        rw [if_pos hclose]
        obtain ⟨rfl, rfl⟩ := hclose
        obtain ⟨K, hK⟩ := hlast rfl
        have hsplit : M = (K ++ [WILDP]) ++ lsm := by rw [hK]; simp
        refine ⟨P, _, _, (K ++ [WILDP]).length, hext, ?_, fun hone hM => ?_⟩
        · have hlength := congrArg List.length hsplit
          rw [List.length_append] at hlength
          exact hlength.ge
        rw [hsplit, List.take_left] at hone
        obtain ⟨a, w, heq, ha, hw⟩ := hone.ends
        have hP : P = pattern seperator same a ++ pattern seperator same w := by
          have hpat := hext.behind.pattern
          rw [hsplit, heq, pattern_append, pattern_append] at hpat
          exact (List.append_cancel_right hpat).symm
        have hbehind := hext.behind
        rw [hP] at hbehind
        refine hbehind.blocked (p := fun x => x.1 != seperator) ?_ ?_ ?_ hM
        · intro t ht
          obtain ⟨m, hm, rfl⟩ := List.mem_map.mp ht
          exact ⟨_, token_literal (ha m hm)⟩
        · intro t ht
          obtain ⟨m, hm, rfl⟩ := List.mem_map.mp ht
          rw [hw m hm]
          rfl
        · simp
      · rw [if_neg hclose]
        exact ⟨rfl, hsuffix, hlast, P, hext, hmore⟩
    · refine Prod.Lex.toLex_lt_toLex.mpr (.inr ⟨hcount, Prod.Lex.toLex_lt_toLex.mpr (.inl ?_)⟩)
      rw [hls]
      dsimp only
      by_cases hclose : seperator = c ∧ WILDP = type
      · rw [if_pos hclose]
        exact Nat.succ_pos _
      · rw [if_neg hclose]
        exact Nat.lt_succ_self _

/-- A character that does not match, or the end of the mask: back, or the answer is no. -/
lemma fails_steps (h : Inv seperator same M D s)
    (hready : s.Ready seperator M)
    (hfail : ¬ Matches (pattern seperator same s.mask) (placed s.data)) :
    match s.ls with
    | none => Says seperator same M D NOMATCH
    | some ls => ∃ s', s.rewind seperator ls = some s' ∧ s'.mask ≠ [] ∧ s'.data ≠ [] ∧
        Inv seperator same M D s' ∧ measure s' < measure s := by
  have hs := h.search
  cases hls : s.ls with
  | none =>
    rw [State.Ready, hls] at hready
    rw [hls] at hs
    obtain ⟨P, sm, sd, n, hs, hn, hexact⟩ := hs
    have hone := hready.take n
    rw [List.take_take, Nat.min_eq_left (by omega)] at hone
    exact says_nomatch fun hM => hfail (hs.matches_iff.mp (hexact hone hM))
  | some ls =>
    rw [State.Ready, hls] at hready
    obtain ⟨s', hrew, hmask, hdata, hinv⟩ := rewind_inv h hls hready hfail
    exact ⟨s', hrew, by rw [hmask]; exact hready.2.1, hdata, hinv⟩

/-- A wildcard that takes over leaves fewer of them. -/
lemma measure_lt_of_wild {s' : State} {m : UInt8} {mask : List UInt8} (hm : s.mask = m :: mask)
    (hwild : isWild m) (hrest : s'.mask.Sublist mask) : measure s' < measure s := by
  have hle := hrest.countP_le (p := isWild)
  refine Prod.Lex.toLex_lt_toLex.mpr (.inl ?_)
  dsimp only
  rw [hm, List.countP_cons_of_pos hwild]
  omega

/-- One more character of both. -/
lemma Inv.one (h : Inv seperator same M D s) {m c : UInt8} {mask data : List UInt8}
    (hm : s.mask = m :: mask) (hd : s.data = c :: data) (hliteral : ¬ isWild m)
    (hsame : same data.length m c) :
    Inv seperator same M D { s with mask := mask, data := data, sofar := s.sofar + 1 } ∧
      measure { s with mask := mask, data := data, sofar := s.sofar + 1 } < measure s := by
  have htoken := @token_literal seperator same _ hliteral
  have hcount : s.mask.countP isWild = mask.countP isWild := by
    rw [hm, List.countP_cons_of_neg hliteral]
  have hsuffix := h.suffix
  rw [hm] at hsuffix
  refine ⟨⟨h.tally, (List.suffix_cons _ _).trans hsuffix, ?_⟩, ?_⟩
  · have hs := h.search
    dsimp only
    cases hls : s.ls with
    | none =>
      rw [hls, hm, hd, pattern_cons, htoken, placed] at hs
      obtain ⟨P, sm, sd, n, hs, hn, hexact⟩ := hs
      rw [List.length_cons] at hn
      exact ⟨P, sm, sd, n, hs.one hsame, by omega, hexact⟩
    | some ls =>
      rw [hls, hcount, hm, hd, pattern_cons, htoken, placed] at hs
      obtain ⟨hcnt, hsuf, hlast, P, hs, hmore⟩ := hs
      exact ⟨hcnt, hsuf, hlast, P, hs.one hsame, hmore⟩
  · refine Prod.Lex.toLex_lt_toLex.mpr (.inr ⟨hcount.symm, ?_⟩)
    refine Prod.Lex.toLex_lt_toLex.mpr (.inr ⟨rfl, ?_⟩)
    rw [hm]
    exact Nat.lt_succ_self _

lemma select_steps (h : Inv seperator same M D s) (hready : s.Fails same → s.Ready seperator M)
    (hmask : s.mask ≠ []) (hdata : s.data ≠ []) :
    Steps (Inv seperator same M D) (Says seperator same M D) measure s
      (select seperator same s) := by
  obtain ⟨m, mask, hm⟩ := List.exists_cons_of_ne_nil hmask
  obtain ⟨c, data, hd⟩ := List.exists_cons_of_ne_nil hdata
  obtain ⟨P, sm, sd, hsearch⟩ := h.exists_search
  have htally := h.tally
  have hsuffix := h.suffix
  rw [hm] at hsuffix hsearch
  rw [select, hm, hd]
  dsimp only
  by_cases hwilds : m = WILDS
  · -- an asterisk takes over, with the wildcards behind it
    subst hwilds
    have hsplit := List.takeWhile_append_dropWhile (p := isWild) (l := mask)
    have hones : ones (pattern seperator same (mask.takeWhile isWild)) = 0 :=
      ones_pattern.mpr fun m hm => List.mem_takeWhile_imp hm
    have htokens : pattern seperator same (WILDS :: mask) =
        (.many (fun _ => true) :: pattern seperator same (mask.takeWhile isWild)) ++
          pattern seperator same (mask.dropWhile isWild) := by
      rw [List.cons_append, ← pattern_append, hsplit]
      rfl
    rw [htokens] at hsearch
    rw [if_pos rfl]
    by_cases hend : mask.dropWhile isWild = []
    · rw [if_pos hend]
      refine iff_of_true (by omega) (hsearch.matches_of ?_)
      rw [hend]
      refine matches_many.mpr ⟨placed s.data, [], by simp, fun _ _ => rfl, ?_⟩
      show Matches (pattern seperator same (mask.takeWhile isWild) ++ []) []
      rw [List.append_nil]
      exact matches_nil_right.mpr hones
    · rw [if_neg hend, ← hd]
      obtain ⟨pre, hnext⟩ := hsearch.next (by exact hones)
      have hrest : mask.dropWhile isWild <:+ M :=
        (List.dropWhile_suffix _).trans ((List.suffix_cons _ _).trans hsuffix)
      refine ⟨⟨by dsimp only; omega, hrest, ?_⟩,
        measure_lt_of_wild hm rfl (List.dropWhile_sublist _)⟩
      exact ⟨rfl, hrest, fun ht => absurd (show WILDS = WILDP from ht) (by decide), _, hnext,
        fun x _ => takesMore_any _ hones x⟩
  · rw [if_neg hwilds]
    by_cases hwildp : m = WILDP
    · -- a percent sign takes over, with those behind it
      subst hwildp
      obtain ⟨n, hn⟩ := zap_percent mask
      have htokens : pattern seperator same (WILDP :: mask) =
          (pattern seperator same (List.replicate n WILDP) ++
              [.many fun x => x.1 != seperator]) ++
            pattern seperator same (mask.dropWhile (· = WILDP)) := by
        rw [hn, pattern_append, pattern_cons, token_wildp, List.append_assoc]
        rfl
      have hones : ones (pattern seperator same (List.replicate n WILDP) ++
          [.many fun x => x.1 != seperator]) = 0 := by
        rw [ones_append, ones_pattern.mpr fun m hm => by
          rw [List.eq_of_mem_replicate hm]; rfl]
        rfl
      rw [htokens] at hsearch
      rw [if_pos rfl, ← hd]
      obtain ⟨pre, hnext⟩ := hsearch.next hones
      rw [← List.append_assoc] at hnext
      have hrest : mask.dropWhile (· = WILDP) <:+ M :=
        (List.dropWhile_suffix _).trans ((List.suffix_cons _ _).trans hsuffix)
      refine ⟨⟨by dsimp only; omega, hrest, ?_⟩,
        measure_lt_of_wild hm rfl (List.dropWhile_sublist _)⟩
      refine ⟨rfl, hrest, fun _ => ?_, _, hnext, fun x hx => takesMore_many _ ?_⟩
      · obtain ⟨K, hK⟩ := hsuffix
        exact ⟨K ++ List.replicate n WILDP, by rw [← hK, hn, List.append_assoc]⟩
      · simpa using hx rfl
    · have hliteral : ¬ isWild m := by
        rw [isWild_iff]
        exact not_or.mpr ⟨hwilds, hwildp⟩
      have htoken := @token_literal seperator same _ hliteral
      rw [if_neg hwildp]
      by_cases hsame : same data.length m c
      · rw [if_pos hsame]
        exact h.one hm hd hliteral hsame
      · rw [if_neg hsame]
        have hfail : ¬ Matches (pattern seperator same s.mask) (placed s.data) := by
          rw [hm, hd, pattern_cons, htoken, placed, matches_one_cons]
          exact fun hmatch => hsame hmatch.1
        have hback := fails_steps h
          (hready ⟨hdata, .inr ⟨m, mask, c, data, hm, hd, hliteral, hsame⟩⟩) hfail
        cases hls : s.ls with
        | none =>
          rw [hls] at hback
          exact hback
        | some ls =>
          rw [hls] at hback
          obtain ⟨s', hrew, -, -, hinv⟩ := hback
          dsimp only
          rw [hrew]
          exact hinv

lemma turn_steps (h : Inv seperator same M D s) (hready : s.Fails same → s.Ready seperator M)
    (hagain : s.data ≠ [] → s.mask = [] → ∀ ls s', s.ls = some ls →
      s.rewind seperator ls = some s' → s'.Fails same → s'.Ready seperator M) :
    Steps (Inv seperator same M D) (Says seperator same M D) measure s
      (turn seperator same s) := by
  obtain ⟨P, sm, sd, hsearch⟩ := h.exists_search
  have htally := h.tally
  rw [turn]
  by_cases hdata : s.data = []
  · rw [if_pos hdata]
    rw [hdata] at hsearch
    have hend : Matches (pattern seperator same M) D ↔ s.mask.dropWhile isWild = [] := by
      rw [List.dropWhile_eq_nil_iff, ← ones_pattern]
      exact hsearch.end_iff
    by_cases hleft : s.mask.dropWhile isWild = []
    · rw [if_pos hleft]
      exact iff_of_true (by omega) (hend.mpr hleft)
    · rw [if_neg hleft]
      exact says_nomatch fun hM => hleft (hend.mp hM)
  · rw [if_neg hdata]
    by_cases hmask : s.mask = []
    · rw [if_pos hmask]
      have hfail : ¬ Matches (pattern seperator same s.mask) (placed s.data) := by
        rw [hmask]
        intro hm
        have hlen := congrArg List.length (matches_nil.mp hm)
        rw [length_placed] at hlen
        exact hdata (List.length_eq_zero_iff.mp hlen)
      have hback := fails_steps h (hready ⟨hdata, .inl hmask⟩) hfail
      cases hls : s.ls with
      | none =>
        rw [hls] at hback
        exact hback
      | some ls =>
        rw [hls] at hback
        obtain ⟨s', hrew, hmask', hdata', hinv, hlt⟩ := hback
        dsimp only
        rw [hrew]
        exact (select_steps hinv (hagain hdata hmask ls s' hls hrew) hmask' hdata').mono hlt
    · rw [if_neg hmask]
      exact select_steps h hready hmask hdata

/-- A call that meets the condition returns, reads within the strings only, and answers whether
the name is in the language. -/
lemma hierarchyMatch_of_sound {data mask : List UInt8} (h : Sound seperator same data mask) :
    ∃ n, ∀ fuel ≥ n, ∃ r, hierarchyMatch seperator same fuel data mask = some r ∧
      (r ≠ 0 ↔ Listed seperator same mask data) := by
  by_cases hnull : mask = [] ∨ data = []
  · refine ⟨0, fun fuel _ => ⟨NOMATCH, by rw [hierarchyMatch, if_pos hnull], ?_⟩⟩
    refine iff_of_false (by simp [NOMATCH]) fun hm => ?_
    by_cases hdata : data = []
    · obtain ⟨m, hmem, hliteral⟩ := h.empty hdata
      rw [Listed, hdata] at hm
      exact hliteral (ones_pattern.mp (matches_nil_right.mp hm) m hmem)
    · rw [Listed, hnull.resolve_right hdata] at hm
      have hlen := congrArg List.length (matches_nil.mp hm)
      rw [List.length_zipIdx] at hlen
      exact hdata (List.length_eq_zero_iff.mp hlen)
  · have hstart : Inv seperator same mask.reverse data.zipIdx.reverse (start data mask) := by
      refine ⟨le_rfl, List.suffix_rfl, [], _, _, 0, ?_, by simp [start], fun _ hM => hM⟩
      rw [start, placed_reverse]
      exact (Behind.start _ _).search
    obtain ⟨n, hn⟩ := Returns.of_reached
      (fun s hs hinv => turn_steps hinv (h.ready s hs) (h.again s hs)) hstart
    refine ⟨n, fun fuel hf => ?_⟩
    obtain ⟨r, hr, hsays⟩ := hn fuel hf
    refine ⟨r, by rw [hierarchyMatch, if_neg hnull, hr], hsays.trans ?_⟩
    rw [pattern, List.map_reverse, matches_reverse]
    rfl

/-- **The language of a mask with levels.** Each of the calls returns with every read within the
strings and answers whether the name is in the language, wherever its turns are sound. -/
theorem wildcards_of_sound (data mask : List UInt8) (seperator : UInt8) (icase : Bool) :
    (Sound seperator (fun _ => sameChar icase) data mask →
      ∃ n, ∀ fuel ≥ n, ∃ r, wildcardHierarchyMatch fuel data seperator mask icase = some r ∧
        (r ≠ 0 ↔ Listed seperator (fun _ => sameChar icase) mask data)) ∧
    (Sound 47 (imapSame data) data mask →
      ∃ n, ∀ fuel ≥ n, ∃ r, imapCmdParserWildcardMatch fuel data mask = some r ∧
        (r = true ↔ Listed 47 (imapSame data) mask data)) := by
  refine ⟨fun h => hierarchyMatch_of_sound h, fun h => ?_⟩
  obtain ⟨n, hn⟩ := hierarchyMatch_of_sound h
  refine ⟨n, fun fuel hf => ?_⟩
  obtain ⟨r, hr, hiff⟩ := hn fuel hf
  refine ⟨r != 0, by rw [imapCmdParserWildcardMatch, hr]; rfl, ?_⟩
  rw [← hiff, bne_iff_ne]

/-- The run of a percent sign that goes back once. -/
lemma reached_axb {s : State}
    (h : Reached (turn 47 (imapSame [97, 120, 98])) (start [97, 120, 98] [97, 37, 98]) s) :
    s = start [97, 120, 98] [97, 37, 98] ∨
    s = ⟨[37, 97], [120, 97], none, 1, 1⟩ ∨
    s = ⟨[97], [120, 97], some ⟨37, [97], [120, 97]⟩, 2, 0⟩ ∨
    s = ⟨[97], [97], some ⟨37, [97], [97]⟩, 2, 0⟩ ∨
    s = ⟨[], [], some ⟨37, [97], [97]⟩, 2, 1⟩ := by
  rcases h.head with rfl | ⟨s1, h1, h⟩
  · exact .inl rfl
  cases h1
  rcases h.head with rfl | ⟨s2, h2, h⟩
  · exact .inr (.inl rfl)
  cases h2
  rcases h.head with rfl | ⟨s3, h3, h⟩
  · exact .inr (.inr (.inl rfl))
  cases h3
  rcases h.head with rfl | ⟨s4, h4, h⟩
  · exact .inr (.inr (.inr (.inl rfl)))
  cases h4
  rcases h.head with rfl | ⟨s5, h5, h⟩
  · exact .inr (.inr (.inr (.inr rfl)))
  cases h5

lemma sound_axb : Sound 47 (imapSame [97, 120, 98]) [97, 120, 98] [97, 37, 98] := by
  refine ⟨fun h => absurd h (by decide), fun s hs hfails => ?_, fun s hs hdata hmask => ?_⟩
  · obtain ⟨hdata, hfails⟩ := hfails
    rcases reached_axb hs with rfl | rfl | rfl | rfl | rfl
    · rcases hfails with h | ⟨m, mask, c, data, hm, hd, -, hne⟩
      · cases h
      · cases hm
        cases hd
        exact absurd rfl hne
    · rcases hfails with h | ⟨m, mask, c, data, hm, hd, hliteral, -⟩
      · cases h
      · cases hm
        exact absurd rfl hliteral
    · exact ⟨by decide, by decide, fun _ => by decide⟩
    · rcases hfails with h | ⟨m, mask, c, data, hm, hd, -, hne⟩
      · cases h
      · cases hm
        cases hd
        exact absurd rfl hne
    · exact absurd rfl hdata
  · rcases reached_axb hs with rfl | rfl | rfl | rfl | rfl
    · cases hmask
    · cases hmask
    · cases hmask
    · cases hmask
    · exact absurd rfl hdata

theorem wildcards_of_sound_axb :
    (∃ n, ∀ fuel ≥ n, ∃ r,
      wildcardHierarchyMatch fuel [97, 120, 98] 47 [97, 37, 98] false = some r ∧
        (r ≠ 0 ↔ Listed 47 (fun _ => sameChar false) [97, 37, 98] [97, 120, 98])) ∧
    ∃ n, ∀ fuel ≥ n, ∃ r, imapCmdParserWildcardMatch fuel [97, 120, 98] [97, 37, 98] = some r ∧
      (r = true ↔ Listed 47 (imapSame [97, 120, 98]) [97, 37, 98] [97, 120, 98]) :=
  ⟨(wildcards_of_sound [97, 120, 98] [97, 37, 98] 47 false).1 sound_axb,
    (wildcards_of_sound [97, 120, 98] [97, 37, 98] 47 false).2 sound_axb⟩

/-- The name `a/b` is listed for `a%b`, and for `%` the call reads before the mask. -/
theorem not_wildcards :
    (imapCmdParserWildcardMatch 10 [97, 47, 98] [97, 37, 98] = some true ∧
      ¬ Listed 47 (imapSame [97, 47, 98]) [97, 37, 98] [97, 47, 98]) ∧
    ∀ fuel, imapCmdParserWildcardMatch fuel [97, 98] [37] = none := by
  refine ⟨⟨by decide, fun h => ?_⟩, fun fuel => ?_⟩
  · obtain ⟨-, h⟩ := matches_one_cons.mp h
    obtain ⟨u, r, heq, hu, hr⟩ := matches_many.mp h
    obtain ⟨x, r, rfl, -, hr⟩ := matches_one.mp hr
    obtain rfl : r = [] := hr
    have hlen := congrArg List.length heq
    rcases u with _ | ⟨y, _ | ⟨z, u⟩⟩
    · simp at hlen
    · cases heq
      exact absurd (hu (47, 1) (by simp)) (by decide)
    · simp at hlen
  · match fuel with
    | 0 => rfl
    | 1 => rfl
    | fuel + 2 => rfl

end SteepSystem.Wildcards.Hierarchy
