import SteepSystem.Lib.Globs
import SteepSystem.Lib.Loops

/-!
`wildcard_match` (`LIBRARY/common/util.c`), which compares from the end of both strings and keeps
one place to go back to.

A string is the list of its bytes. A pointer into it is the list of the bytes from there back to
its front, so that the place before the front is the empty list, and a read there is astray. An
`int` stays within its range, as it counts characters.
-/

namespace SteepSystem.Wildcards.Match

open SteepSystem.Lib.Globs SteepSystem.Lib.Loops

/-- `*` -/
def WILDS : UInt8 := 42

/-- `?` -/
def WILDQ : UInt8 := 63

def NOMATCH : ℕ := 0

def toupper (c : UInt8) : UInt8 := if 97 ≤ c && c ≤ 122 then c - 32 else c

def sameChar (icase : Bool) (a b : UInt8) : Bool :=
  if icase then toupper a == toupper b else a == b

/-- The variables of the loop. `ls` is `lsm` and `lsn`, unless `lsm` is null. -/
structure State where
  mask : List UInt8
  data : List UInt8
  ls : Option (List UInt8 × List UInt8)
  matched : ℕ
  sofar : ℕ

/-- Back to the saved place, one character further. -/
def State.rewind (s : State) (lsm lsn : List UInt8) : State :=
  { s with mask := lsm, data := lsn, ls := if lsn = [] then none else some (lsm, lsn), sofar := 0 }

variable (icase : Bool)

/-- The turn from the `switch` on. -/
def select (s : State) : Turn State ℕ :=
  match s.mask with
  | [] => .stray
  | m :: mask =>
    if m = WILDS then
      let mask := mask.dropWhile (· = WILDS)
      if mask = [] then .ret (s.matched + s.sofar)
      else .go ⟨mask, s.data, some (mask, s.data), s.matched + s.sofar, 0⟩
    else
      match s.data with
      | [] => .stray
      | c :: data =>
        if m = WILDQ then .go { s with mask := mask, data := data }
        else if sameChar icase m c then
          .go { s with mask := mask, data := data, sofar := s.sofar + 1 }
        else
          match s.ls with
          | none => .ret NOMATCH
          | some (_, []) => .stray
          | some (lsm, _ :: lsn) => .go (s.rewind lsm lsn)

def turn (s : State) : Turn State ℕ :=
  if s.data = [] then
    .ret (if s.mask.dropWhile (· = WILDS) = [] then s.matched + s.sofar else NOMATCH)
  else if s.mask = [] then
    match s.ls with
    | none => .ret NOMATCH
    | some (_, []) => .stray
    | some (lsm, _ :: lsn) => select icase (s.rewind lsm lsn)
  else select icase s

/-- The call; no result when it has not returned within the fuel, or read outside a string. -/
def wildcardMatch (fuel : ℕ) (data mask : List UInt8) : Option ℕ :=
  if mask = [] ∨ data = [] then some NOMATCH
  else loop (turn icase) fuel ⟨mask.reverse, data.reverse, none, 1, 0⟩

/-- What a character of the mask stands for. -/
def token (m : UInt8) : Token UInt8 :=
  if m = WILDS then .many fun _ => true
  else if m = WILDQ then .one fun _ => true
  else .one (sameChar icase m)

/-- The glob language of a mask. -/
def Glob (mask data : List UInt8) : Prop := Matches (mask.map (token icase)) data

variable {icase}

@[simp] lemma token_wilds : token icase WILDS = .many fun _ => true := rfl

lemma token_one {m : UInt8} (h : m ≠ WILDS) :
    token icase m = .one fun c => decide (m = WILDQ) || sameChar icase m c := by
  rw [token, if_neg h]
  by_cases hq : m = WILDQ
  · simp [hq]
  · simp [hq]

variable (icase) in
/-- The wildcards at a place, and what is left behind them. -/
lemma zap (mask : List UInt8) : ∃ n, mask.map (token icase) =
    List.replicate n (.many fun _ => true) ++ (mask.dropWhile (· = WILDS)).map (token icase) := by
  induction mask with
  | nil => exact ⟨0, rfl⟩
  | cons m mask ih =>
    by_cases hm : m = WILDS
    · obtain ⟨n, hn⟩ := ih
      refine ⟨n + 1, ?_⟩
      rw [List.map_cons, hn, hm, List.dropWhile_cons_of_pos (by simp), List.replicate_succ]
      rfl
    · exact ⟨0, by rw [List.dropWhile_cons_of_neg (by simpa using hm)]; rfl⟩

lemma ones_replicate (n : ℕ) : ones (List.replicate n (Token.many fun _ : UInt8 => true)) = 0 :=
  ones_eq_zero.mpr fun _ ht => ⟨_, List.eq_of_mem_replicate ht⟩

lemma ones_map_eq_zero (mask : List UInt8) :
    ones (mask.map (token icase)) = 0 ↔ mask.dropWhile (· = WILDS) = [] := by
  rw [ones_eq_zero, List.forall_mem_map, List.dropWhile_eq_nil_iff]
  refine forall₂_congr fun m _ => ?_
  by_cases hm : m = WILDS
  · rw [hm]
    exact iff_of_true ⟨_, rfl⟩ (by simp)
  · rw [token_one hm]
    exact iff_of_false (by simp) (by simpa using hm)

/-- How many wildcards are left, how often the last one can be extended, and how far it is to
the front of the mask. -/
def measure (s : State) : ℕ ×ₗ ℕ ×ₗ ℕ :=
  toLex (s.mask.count WILDS, toLex ((s.ls.elim 0 fun ls => ls.2.length), s.mask.length))

/-- The search that the variables stand for. Where there is no place to go back to, a match of
the whole is one from here. -/
structure Inv (icase : Bool) (M D : List UInt8) (s : State) : Prop where
  tally : 1 ≤ s.matched
  search : match s.ls with
    | none => ∃ P sm sd, Search (M.map (token icase)) D P sm sd (s.mask.map (token icase)) s.data ∧
        (Matches (M.map (token icase)) D → Matches sm sd)
    | some (lsm, lsn) => lsm ≠ [] ∧ lsm.count WILDS = s.mask.count WILDS ∧
        ∃ P, Search (M.map (token icase)) D (P ++ [.many fun _ => true])
          (lsm.map (token icase)) lsn (s.mask.map (token icase)) s.data

variable {M D : List UInt8} {s : State}

lemma Inv.exists_search (h : Inv icase M D s) : ∃ P sm sd,
    Search (M.map (token icase)) D P sm sd (s.mask.map (token icase)) s.data := by
  have hs := h.search
  cases hls : s.ls with
  | none =>
    rw [hls] at hs
    obtain ⟨P, sm, sd, hs, -⟩ := hs
    exact ⟨P, sm, sd, hs⟩
  | some ls =>
    rw [hls] at hs
    obtain ⟨-, -, P, hs⟩ := hs
    exact ⟨_, _, _, hs⟩

/-- A returned number says whether the text matches. -/
def Says (icase : Bool) (M D : List UInt8) (r : ℕ) : Prop :=
  r ≠ 0 ↔ Matches (M.map (token icase)) D

lemma says_nomatch (h : ¬ Matches (M.map (token icase)) D) : Says icase M D NOMATCH :=
  iff_of_false (by simp [NOMATCH]) h

lemma measure_lt_of_count {s' : State} (h : s'.mask.count WILDS < s.mask.count WILDS) :
    measure s' < measure s :=
  Prod.Lex.toLex_lt_toLex.mpr (.inl h)

lemma rewind_inv {lsm lsn : List UInt8} {x : UInt8} (h : Inv icase M D s)
    (hls : s.ls = some (lsm, x :: lsn))
    (hfail : ¬ Matches (s.mask.map (token icase)) s.data) :
    Inv icase M D (s.rewind lsm lsn) ∧ measure (s.rewind lsm lsn) < measure s := by
  have hs := h.search
  rw [hls] at hs
  obtain ⟨hne, hcount, P, hs⟩ := hs
  have hext := hs.extend (takesMore_many P rfl) hfail
  refine ⟨⟨h.tally, ?_⟩, ?_⟩
  · rw [State.rewind]
    dsimp only
    by_cases hend : lsn = []
    · subst hend
      rw [if_pos rfl]
      refine ⟨_, _, _, hext, fun hM => ?_⟩
      obtain ⟨-, r, -, -, hr, hm⟩ := hext.behind.needed hM
      rwa [List.suffix_nil.mp hr] at hm
    · rw [if_neg hend]
      exact ⟨hne, rfl, P, hext⟩
  · refine Prod.Lex.toLex_lt_toLex.mpr (.inr ⟨hcount, Prod.Lex.toLex_lt_toLex.mpr (.inl ?_)⟩)
    rw [State.rewind, hls]
    by_cases hend : lsn = []
    · rw [if_pos hend]
      exact Nat.succ_pos _
    · rw [if_neg hend]
      exact Nat.lt_succ_self _

lemma select_steps (h : Inv icase M D s) (hmask : s.mask ≠ []) (hdata : s.data ≠ []) :
    Steps (Inv icase M D) (Says icase M D) measure s (select icase s) := by
  obtain ⟨m, mask, hm⟩ := List.exists_cons_of_ne_nil hmask
  obtain ⟨c, data, hd⟩ := List.exists_cons_of_ne_nil hdata
  obtain ⟨P, sm, sd, hsearch⟩ := h.exists_search
  rw [select, hm, hd]
  dsimp only
  by_cases hwild : m = WILDS
  · -- a wildcard takes over from the one before
    obtain ⟨n, hn⟩ := zap icase mask
    have htokens : s.mask.map (token icase) =
        (List.replicate n (.many fun _ => true) ++ [.many fun _ => true]) ++
          (mask.dropWhile (· = WILDS)).map (token icase) := by
      rw [hm, hwild, List.map_cons, hn, ← List.replicate_succ', List.replicate_succ]
      rfl
    rw [if_pos hwild]
    rw [htokens] at hsearch
    by_cases hend : mask.dropWhile (· = WILDS) = []
    · rw [if_pos hend]
      refine iff_of_true (by have := h.tally; omega) (hsearch.matches_of ?_)
      rw [hend, List.map_nil, List.append_nil, ← List.nil_append s.data]
      exact (matches_nil_right.mpr (ones_replicate n)).append
        (matches_singleton_many.mpr fun _ _ => rfl)
    · rw [if_neg hend]
      obtain ⟨pre, hnext⟩ := hsearch.next
        (by rw [← List.replicate_succ']; exact ones_replicate (n + 1))
      refine ⟨⟨by have := h.tally; dsimp only; omega, ?_⟩, ?_⟩
      · refine ⟨hend, rfl, P ++ pre ++ List.replicate n (.many fun _ => true), ?_⟩
        rw [← hd, List.append_assoc _ (List.replicate n _)]
        exact hnext
      · refine measure_lt_of_count ?_
        have hle : (mask.dropWhile (· = WILDS)).count WILDS ≤ mask.count WILDS :=
          (List.dropWhile_sublist _).count_le _
        rw [hm, hwild, List.count_cons_self]
        dsimp only
        omega
  · have htoken := @token_one icase _ hwild
    have hcount : s.mask.count WILDS = mask.count WILDS := by
      rw [hm, List.count_cons_of_ne hwild]
    rw [hm, hd, List.map_cons, htoken] at hsearch
    rw [if_neg hwild]
    by_cases hsame : (decide (m = WILDQ) || sameChar icase m c) = true
    · -- one more character of both
      have hgo : Inv icase M D { s with mask := mask, data := data } := by
        refine ⟨h.tally, ?_⟩
        have hs := h.search
        cases hls : s.ls with
        | none =>
          rw [hls, hm, hd, List.map_cons, htoken] at hs
          obtain ⟨P, sm, sd, hs, hexact⟩ := hs
          exact ⟨P, sm, sd, hs.one hsame, hexact⟩
        | some ls =>
          rw [hls, hm, hd, List.map_cons, htoken] at hs
          obtain ⟨hne, hls, P, hs⟩ := hs
          exact ⟨hne, by rw [hls, ← hm, hcount], P, hs.one hsame⟩
      have hlt : measure { s with mask := mask, data := data } < measure s := by
        refine Prod.Lex.toLex_lt_toLex.mpr (.inr ⟨hcount.symm, ?_⟩)
        refine Prod.Lex.toLex_lt_toLex.mpr (.inr ⟨rfl, ?_⟩)
        rw [hm]
        exact Nat.lt_succ_self _
      by_cases hq : m = WILDQ
      · rw [if_pos hq]
        exact ⟨hgo, hlt⟩
      · have hsame' : sameChar icase m c = true := by simpa [hq] using hsame
        rw [if_neg hq, if_pos hsame']
        exact ⟨⟨hgo.tally, hgo.search⟩, hlt⟩
    · -- back to the last wildcard
      have hfail : ¬ Matches (s.mask.map (token icase)) s.data := by
        rw [hm, hd, List.map_cons, htoken, matches_one_cons]
        exact fun hmatch => hsame hmatch.1
      obtain ⟨hq, hsame'⟩ : m ≠ WILDQ ∧ ¬ sameChar icase m c = true := by simpa using hsame
      rw [if_neg hq, if_neg hsame']
      have hs := h.search
      cases hls : s.ls with
      | none =>
        rw [hls] at hs
        obtain ⟨P, sm, sd, hs, hexact⟩ := hs
        exact says_nomatch fun hM => hfail (hs.matches_iff.mp (hexact hM))
      | some ls =>
        obtain ⟨lsm, lsn⟩ := ls
        rw [hls] at hs
        obtain ⟨-, -, P, hs⟩ := hs
        cases lsn with
        | nil =>
          have hle := hs.length_le
          rw [hd] at hle
          simp at hle
        | cons x lsn => exact rewind_inv h hls hfail

lemma turn_steps (h : Inv icase M D s) :
    Steps (Inv icase M D) (Says icase M D) measure s (turn icase s) := by
  obtain ⟨P, sm, sd, hsearch⟩ := h.exists_search
  rw [turn]
  by_cases hdata : s.data = []
  · rw [if_pos hdata]
    rw [hdata] at hsearch
    have hend := hsearch.end_iff.trans (ones_map_eq_zero s.mask)
    by_cases hleft : s.mask.dropWhile (· = WILDS) = []
    · rw [if_pos hleft]
      exact iff_of_true (by have := h.tally; omega) (hend.mpr hleft)
    · rw [if_neg hleft]
      exact says_nomatch fun hM => hleft (hend.mp hM)
  · rw [if_neg hdata]
    by_cases hmask : s.mask = []
    · rw [if_pos hmask]
      have hfail : ¬ Matches (s.mask.map (token icase)) s.data := by
        rw [hmask]
        exact hdata
      have hs := h.search
      cases hls : s.ls with
      | none =>
        rw [hls] at hs
        obtain ⟨P, sm, sd, hs, hexact⟩ := hs
        exact says_nomatch fun hM => hfail (hs.matches_iff.mp (hexact hM))
      | some ls =>
        obtain ⟨lsm, lsn⟩ := ls
        rw [hls] at hs
        obtain ⟨hne, -, P, hs⟩ := hs
        -- the mask has run out behind the wildcard, so that the text has gone on behind it
        obtain ⟨pre, c, hpre, hc, ha⟩ := hs.along
        have hlen : lsn.length = pre.length + s.data.length := by
          rw [hc, List.length_append, ha.length_eq]
        have hpos : 0 < pre.length := by
          rw [hmask, List.map_nil, List.append_nil] at hpre
          rw [← hpre, List.length_map]
          exact List.length_pos_iff.mpr hne
        have hdpos := List.length_pos_iff.mpr hdata
        cases lsn with
        | nil =>
          rw [List.length_nil] at hlen
          omega
        | cons x lsn =>
          obtain ⟨hinv, hlt⟩ := rewind_inv h hls hfail
          rw [List.length_cons] at hlen
          exact (select_steps hinv hne (List.length_pos_iff.mp (by
            rw [State.rewind]
            dsimp only
            omega))).mono hlt
    · rw [if_neg hmask]
      exact select_steps h hmask hdata

/-- **The language of a mask.** The call returns with every read within the strings, and its
result is not 0 exactly for a text in the language, unless one of the two is empty. -/
theorem wildcardMatch_iff (icase : Bool) (data mask : List UInt8) :
    ∃ n, ∀ fuel ≥ n, ∃ r, wildcardMatch icase fuel data mask = some r ∧
      (r ≠ 0 ↔ data ≠ [] ∧ mask ≠ [] ∧ Glob icase mask data) := by
  by_cases hnull : mask = [] ∨ data = []
  · refine ⟨0, fun fuel _ => ⟨NOMATCH, by rw [wildcardMatch, if_pos hnull], ?_⟩⟩
    refine iff_of_false (by simp [NOMATCH]) fun ⟨hd, hm, _⟩ => ?_
    exact hnull.elim hm hd
  · obtain ⟨hmask, hdata⟩ := not_or.mp hnull
    have hstart : Inv icase mask.reverse data.reverse
        ⟨mask.reverse, data.reverse, none, 1, 0⟩ :=
      ⟨le_rfl, _, _, _, (Behind.start _ _).search, id⟩
    obtain ⟨n, hn⟩ := Returns.of_steps (fun s hs => turn_steps hs) hstart
    refine ⟨n, fun fuel hf => ?_⟩
    obtain ⟨r, hr, hsays⟩ := hn fuel hf
    refine ⟨r, by rw [wildcardMatch, if_neg hnull, hr], hsays.trans ?_⟩
    rw [List.map_reverse, matches_reverse]
    exact ⟨fun h => ⟨hdata, hmask, h⟩, fun h => h.2.2⟩

/-- An empty text is in the language of an asterisk and is refused. -/
theorem wildcardMatch_empty : ¬ ∃ n, ∀ fuel ≥ n, ∃ r, wildcardMatch false fuel [] [WILDS] = some r ∧
    (r ≠ 0 ↔ Glob false [WILDS] []) := by
  rintro ⟨n, hn⟩
  obtain ⟨r, hr, hiff⟩ := hn n le_rfl
  rw [wildcardMatch, if_pos (.inr rfl)] at hr
  cases hr
  exact hiff.mpr (matches_singleton_many.mpr (by simp)) rfl

end SteepSystem.Wildcards.Match
