import SteepSystem.Digests.Model
import Mathlib.Data.List.Infix

/-!
What the digest functions do to a digest of members, where the quoted tag is found at its own
member.
-/

namespace SteepSystem.Digests

variable {tag t a b s v needle : Text} {c d : Char} {m x : Member} {ms l r : List Member}

/-! ### The search -/

lemma prefix_append_cons {α : Type} {n p q : List α} {c : α} (hc : c ∉ n) :
    n <+: p ++ c :: q ↔ n <+: p := by
  constructor
  · intro h
    rcases List.prefix_or_prefix_of_prefix h (List.prefix_append p (c :: q)) with hp | ⟨u, rfl⟩
    · exact hp
    · rw [List.prefix_append_right_inj] at h
      cases u with
      | nil => simp
      | cons e u =>
        obtain ⟨rfl, -⟩ := List.cons_prefix_cons.1 h
        simp at hc
  · exact fun h => h.trans (List.prefix_append _ _)

lemma startsWith_append_cons (hc : c.toLower ∉ needle.map Char.toLower) :
    StartsWith needle (a ++ c :: b) ↔ StartsWith needle a := by
  rw [StartsWith, StartsWith, List.map_append, List.map_cons, prefix_append_cons hc]

/-- A character that the needle lacks keeps it from lying on both sides. -/
lemma searchString_append_cons (hn : needle ≠ []) (hc : c.toLower ∉ needle.map Char.toLower)
    (ha : searchString needle a = none) :
    searchString needle (a ++ c :: b) = searchString needle b := by
  induction a with
  | nil =>
    have hno : ¬ StartsWith needle ([] ++ c :: b) := by
      rw [startsWith_append_cons hc, StartsWith]
      simpa using hn
    exact if_neg hno
  | cons e a ih =>
    rw [searchString] at ha
    split at ha
    · simp at ha
    · next hno =>
      rw [← startsWith_append_cons (b := b) hc] at hno
      rw [List.cons_append, searchString]
      exact (if_neg hno).trans (ih ha)

lemma searchString_quoted (tag s : Text) :
    searchString (quoted tag) (quoted tag ++ s) = some (quoted tag ++ s) :=
  if_pos (by
    change List.map Char.toLower (quoted tag) <+: List.map Char.toLower (quoted tag ++ s)
    rw [List.map_append]
    exact List.prefix_append _ _)

lemma toLower_eq {e : Char} (hc : c ∈ [',', ':', '{', '}']) (h : e.toLower = c.toLower) :
    e = c := by
  have hcl : c.toLower = c := by
    simp only [List.mem_cons, List.not_mem_nil, or_false] at hc
    rcases hc with rfl | rfl | rfl | rfl <;> rfl
  rw [hcl] at h
  unfold Char.toLower at h
  split at h
  · next hup =>
    exfalso
    have hval := congrArg (fun c : Char => c.val.toNat) h
    obtain ⟨hA, hZ⟩ := hup
    rw [ge_iff_le, UInt32.le_iff_toNat_le] at hA
    rw [UInt32.le_iff_toNat_le] at hZ
    simp only [List.mem_cons, List.not_mem_nil, or_false] at hc
    simp at hval hA hZ
    rcases hc with rfl | rfl | rfl | rfl <;> simp at hval <;> omega
  · exact h

namespace Plain

lemma tempTag_eq (h : Plain tag) : tempTag tag = quoted tag :=
  List.take_of_length_le (by simp [quoted]; have := h.length; omega)

lemma notMem (h : Plain tag) (hc : c ∈ [',', ':', '{', '}']) :
    c.toLower ∉ (quoted tag).map Char.toLower := by
  intro hmem
  obtain ⟨e, he, hec⟩ := List.mem_map.1 hmem
  obtain rfl := toLower_eq hc hec
  simp only [quoted, List.mem_cons, List.mem_append, List.not_mem_nil, or_false] at he
  rcases he with rfl | he | rfl
  · simp at hc
  · exact h.separators e he hc
  · simp at hc

lemma search_append (h : Plain tag) (hc : c ∈ [',', ':', '{', '}'])
    (ha : searchString (tempTag tag) a = none) :
    searchString (tempTag tag) (a ++ c :: b) = searchString (tempTag tag) b := by
  rw [h.tempTag_eq] at ha ⊢
  exact searchString_append_cons (by simp [quoted]) (h.notMem hc) ha

lemma search_cons (h : Plain tag) (hc : c ∈ [',', ':', '{', '}']) :
    searchString (tempTag tag) (c :: b) = searchString (tempTag tag) b :=
  h.search_append (a := []) hc rfl

lemma search_gap (h : Plain tag) {g : Text} (hg : Blank g) (v : Text) :
    searchString (tempTag tag) (g ++ v) = searchString (tempTag tag) v := by
  rw [h.tempTag_eq]
  induction g with
  | nil => rfl
  | cons c g ih =>
    rw [Blank, List.forall_mem_cons] at hg
    have hno : ¬ StartsWith (quoted tag) (c :: (g ++ v)) := by
      rw [StartsWith, quoted, List.map_cons, List.map_cons, List.cons_prefix_cons]
      rintro ⟨h, -⟩
      rcases hg.1 with rfl | rfl <;> revert h <;> decide
    exact (if_neg hno).trans (ih hg.2)

end Plain

/-! ### Where a member begins and ends -/

/-- The members without the `}`. -/
def bare (c : Char) : List Member → Text
  | [] => []
  | m :: ms => c :: (m.text ++ bare ',' ms)

/-- What stands behind the members. -/
def sepAfter (c : Char) (l : List Member) : Char := if l = [] then c else ','

lemma joined_append (c : Char) (l r : List Member) :
    joined c (l ++ r) = bare c l ++ joined (sepAfter c l) r := by
  induction l generalizing c with
  | nil => rfl
  | cons x l ih =>
    have hsep : sepAfter ',' l = ',' := by simp [sepAfter]
    rw [List.cons_append, joined, ih, bare, hsep]
    simp [sepAfter]

lemma text_eq (h : ms ≠ []) : text ms = joined '{' ms := by
  cases ms with
  | nil => exact absurd rfl h
  | cons m ms => rfl

lemma joined_eq_cons (c : Char) (ms : List Member) :
    ∃ d u, joined c ms = d :: u ∧ (d = c ∨ d = '}') := by
  cases ms with
  | nil => exact ⟨_, _, rfl, .inr rfl⟩
  | cons m ms => exact ⟨_, _, rfl, .inl rfl⟩

namespace Plain

lemma search_member (h : Plain tag) (hx : Avoids tag x)
    (hb : Blank x.before ∧ Blank x.behind ∧ Blank x.gap) (hc : c ∈ [',', ':', '{', '}']) :
    searchString (tempTag tag) (joined c (x :: ms)) =
      searchString (tempTag tag) (joined ',' ms) := by
  obtain ⟨d, u, hu, hd⟩ := joined_eq_cons ',' ms
  have hd' : d ∈ [',', ':', '{', '}'] := by rcases hd with rfl | rfl <;> simp
  have hval : searchString (tempTag tag) (x.gap ++ x.value) = none :=
    (h.search_gap hb.2.2 _).trans hx.2
  rw [joined, h.search_cons hc, Member.text, List.append_assoc, h.search_gap hb.1, Member.named, hu,
    ← List.append_assoc (quoted x.key), List.append_assoc, List.cons_append,
    h.search_append (by simp) hx.1, h.search_append hd' hval, h.search_cons hd']

lemma search_found (h : Plain tag) (hl : ∀ x ∈ l, Avoids tag x)
    (hg : ∀ x ∈ l, Blank x.before ∧ Blank x.behind ∧ Blank x.gap) (hm : m.key = tag)
    (hb : Blank m.before) (hc : c ∈ [',', ':', '{', '}']) :
    searchString (tempTag tag) (joined c (l ++ m :: r)) = some (m.named ++ joined ',' r) := by
  induction l generalizing c with
  | nil =>
    subst hm
    rw [List.nil_append, joined, h.search_cons hc, Member.text, List.append_assoc,
      h.search_gap hb, h.tempTag_eq, Member.named, List.append_assoc]
    exact searchString_quoted _ _
  | cons x l ih =>
    rw [List.forall_mem_cons] at hl hg
    rw [List.cons_append, h.search_member hl.1 hg.1 hc]
    exact ih hl.2 hg.2 (by simp)

lemma search_none (h : Plain tag) (hl : ∀ x ∈ l, Avoids tag x)
    (hg : ∀ x ∈ l, Blank x.before ∧ Blank x.behind ∧ Blank x.gap) (hc : c ∈ [',', ':', '{', '}']) :
    searchString (tempTag tag) (joined c l) = none := by
  induction l generalizing c with
  | nil => exact h.search_cons (by simp)
  | cons x l ih =>
    rw [List.forall_mem_cons] at hl hg
    rw [h.search_member hl.1 hg.1 hc]
    exact ih hl.2 hg.2 (by simp)

lemma search_text_none (h : Plain tag) (hl : ∀ x ∈ l, Avoids tag x)
    (hg : ∀ x ∈ l, Blank x.before ∧ Blank x.behind ∧ Blank x.gap) :
    searchString (tempTag tag) (text l) = none := by
  cases l with
  | nil => exact (h.search_cons (by simp)).trans (h.search_cons (by simp))
  | cons x l => exact h.search_none hl hg (by simp)

end Plain

lemma Avoids.key_ne (ha : Avoids tag x) (h : Plain tag) : x.key ≠ tag := by
  rintro rfl
  have hnone := ha.1
  rw [h.tempTag_eq, searchString_quoted] at hnone
  simp at hnone

/-- The tag is found at its own member, or is nowhere. -/
lemma Clear.cases (hc : Clear tag ms) :
    (∃ l m r, ms = l ++ m :: r ∧ m.key = tag ∧ ∀ x ∈ l, Avoids tag x) ∨
      ∀ x ∈ ms, Avoids tag x := by
  induction ms with
  | nil => exact .inr (by simp)
  | cons m ms ih =>
    rcases hc with hm | ⟨ha, hc⟩
    · exact .inl ⟨[], m, ms, rfl, hm, by simp⟩
    · rcases ih hc with ⟨l, x, r, rfl, hx, hl⟩ | hl
      · exact .inl ⟨m :: l, x, r, rfl, hx, List.forall_mem_cons.2 ⟨ha, hl⟩⟩
      · exact .inr (List.forall_mem_cons.2 ⟨ha, hl⟩)

/-! ### Where a value begins and ends -/

lemma Json.exists_cons (hv : Json v) : ∃ c s, v = c :: s ∧ c ≠ ' ' ∧ c ≠ '\t' := by
  cases hv with
  | string hs => exact ⟨_, _, rfl, by decide, by decide⟩
  | scalar hs h =>
    cases v with
    | nil => exact absurd rfl hs
    | cons c s =>
      have hc := h c (by simp)
      refine ⟨c, s, rfl, ?_, ?_⟩ <;> (rintro rfl; revert hc; decide)
  | array => exact ⟨_, _, rfl, by decide, by decide⟩
  | object => exact ⟨_, _, rfl, by decide, by decide⟩

/-- A value that begins with a quote is a string, and another one does not end with a quote. -/
lemma Json.quote_cases (hv : Json v) : (∃ s, Escaped s ∧ v = quoted s) ∨
    v.head? ≠ some '"' ∧ v.getLast? ≠ some '"' := by
  cases hv with
  | string hs => exact .inl ⟨_, hs, rfl⟩
  | scalar hs h =>
    have hq : '"' ∉ v := by
      intro hmem
      have := h _ hmem
      revert this
      decide
    refine .inr ⟨fun hh => hq (List.mem_of_mem_head? hh), fun hl => hq ?_⟩
    exact List.mem_of_mem_getLast? hl
  | array => exact .inr ⟨by simp, by simp [List.getLast?_cons, List.getLast?_append]⟩
  | object => exact .inr ⟨by simp, by simp [List.getLast?_cons, List.getLast?_append]⟩

lemma closeQuote_append (hs : Escaped s) (hlast : (c :: s).getLast? ≠ some '\\') (u : Text) :
    closeQuote c (s ++ '"' :: u) = some ('"' :: u) := by
  induction s using Escaped.induct generalizing c with
  | case1 =>
    rw [List.nil_append, closeQuote, if_neg]
    simpa using hlast
  | case2 e =>
    have he := hs
    simp only [Escaped] at he
    simp [closeQuote, he.1, he.2]
  | case3 d s ih =>
    rw [Escaped, if_pos rfl] at hs
    rw [List.getLast?_cons_cons] at hlast
    have hstep : closeQuote c ('\\' :: d :: s ++ '"' :: u) = closeQuote d (s ++ '"' :: u) := by
      simp [closeQuote]
    rw [hstep]
    exact ih hs (by rwa [List.getLast?_cons_cons] at hlast)
  | case4 e d s he ih =>
    rw [Escaped, if_neg he] at hs
    rw [List.getLast?_cons_cons] at hlast
    have hstep : closeQuote c (e :: d :: s ++ '"' :: u) = closeQuote e (d :: s ++ '"' :: u) := by
      rw [List.cons_append, closeQuote, if_pos (.inl hs.1)]
    rw [hstep]
    exact ih hs.2 hlast

lemma memberEnd_append (hv : ∀ d ∈ v, d ≠ ',' ∧ d ≠ '}') (hc : c = ',' ∨ c = '}') (u : Text) :
    memberEnd (v ++ c :: u) = some (c :: u) := by
  induction v with
  | nil => exact if_pos hc
  | cons d v ih =>
    rw [List.forall_mem_cons] at hv
    rw [List.cons_append, memberEnd, if_neg (by simp [hv.1.1, hv.1.2])]
    exact ih hv.2

lemma Json.valueEnd_append (hv : Json v) (he : Ends v) (hc : c = ',' ∨ c = '}') (u : Text) :
    valueEnd (v ++ c :: u) = some (c :: u) := by
  rcases hv.quote_cases with ⟨s, hs, rfl⟩ | ⟨hh, -⟩
  · have hlast : ('"' :: s).getLast? ≠ some '\\' := by
      simp only [quoted, Ends, if_true, List.dropLast_concat] at he
      cases s with
      | nil => simp
      | cons d s => rwa [List.getLast?_cons_cons]
    have hclose := closeQuote_append hs hlast (c :: u)
    have hend : memberEnd ('"' :: c :: u) = some (c :: u) := by
      rw [memberEnd, if_neg (by decide)]
      exact if_pos hc
    rw [quoted, List.cons_append, List.append_assoc, valueEnd, if_pos rfl, List.singleton_append,
      hclose, Option.bind_some, hend]
  · cases v with
    | nil => exact he.elim
    | cons d s =>
      have hd : d ≠ '"' := by simpa using hh
      rw [Ends, if_neg hd] at he
      rw [List.cons_append, valueEnd, if_neg hd]
      exact memberEnd_append he hc u

lemma Json.unquote_eq (hv : Json v) : unquote v = content v := by
  rcases hv.quote_cases with ⟨s, -, rfl⟩ | ⟨hh, hl⟩
  · simp [unquote, content, quoted]
  · cases v with
    | nil => rfl
    | cons c s =>
      have hc : c ≠ '"' := by simpa using hh
      rw [content, if_neg hc]
      simp only [unquote]
      rw [if_neg hh, if_neg hl]

lemma dropWhile_gap {g : Text} (hg : Blank g) (hv : Json v) (u : Text) :
    (g ++ v ++ u).dropWhile (fun c => decide (c = ' ' ∨ c = '\t')) = v ++ u := by
  obtain ⟨c, s, rfl, hc, hc'⟩ := hv.exists_cons
  rw [List.append_assoc, List.dropWhile_append_of_pos (by simpa [Blank] using hg)]
  rw [List.cons_append, List.dropWhile_cons_of_neg (by simp [hc, hc'])]

lemma Member.valueStart_named (hb : Blank m.behind) (hg : Blank m.gap) (hv : Json m.value)
    (u : Text) : valueStart m.key (m.named ++ u) = some (m.value ++ u) := by
  have hcolon : ∀ c ∈ m.behind, decide (c ≠ ':') = true := by
    intro c hc
    rcases hb c hc with rfl | rfl <;> rfl
  rw [valueStart, Member.named, List.append_assoc, List.drop_left, List.append_assoc,
    List.dropWhile_append_of_pos hcolon, List.cons_append, List.dropWhile_cons_of_neg (by simp)]
  exact congrArg some (dropWhile_gap hg hv u)

/-! ### One call -/

lemma lookup_append (hl : ∀ x ∈ l, x.key ≠ tag) (hm : m.key = tag) :
    lookup (l ++ m :: r) tag = some m.value := by
  rw [lookup, List.find?_append, List.find?_eq_none.2 (by simpa using hl)]
  simp [hm]

lemma lookup_eq_none (hl : ∀ x ∈ l, x.key ≠ tag) : lookup l tag = none := by
  rw [lookup, List.find?_eq_none.2 (by simpa using hl), Option.map_none]

lemma update_eq_self (hl : ∀ x ∈ l, x.key ≠ tag) : update l tag v = l := by
  refine (List.map_congr_left fun x hx => ?_).trans (List.map_id l)
  exact if_neg (hl x hx)

lemma update_append (hl : ∀ x ∈ l, x.key ≠ tag) (hm : m.key = tag) (hr : ∀ x ∈ r, x.key ≠ tag) :
    update (l ++ m :: r) tag v = l ++ { m with value := v } :: r := by
  have hmap : update (l ++ m :: r) tag v = update l tag v ++
      (if m.key = tag then { m with value := v } else m) :: update r tag v := by
    simp only [update, List.map_append, List.map_cons]
  rw [hmap, update_eq_self hl, update_eq_self hr, if_pos hm]

/-- The pieces of a digest around the value of `m`. -/
lemma text_append (l : List Member) (m : Member) (r : List Member) :
    text (l ++ m :: r) = bare '{' l ++ sepAfter '{' l ::
      (m.before ++ quoted m.key ++ m.behind ++ ':' :: m.gap) ++ (m.value ++ joined ',' r) := by
  rw [text_eq (by simp), joined_append, joined, Member.text, Member.named]
  simp

section

variable (W : WellFormed ms) (h : Plain tag) (hc : Clear tag ms)
  (he : ∀ v, lookup ms tag = some v → Ends v)
include W h hc he

/-- Either the tag is not there, or all its functions find the same three pieces. -/
lemma search_cases :
    (lookup ms tag = none ∧ searchString (tempTag tag) (text ms) = none) ∨
      ∃ l m r, ms = l ++ m :: r ∧ m.key = tag ∧ (∀ x ∈ l, x.key ≠ tag) ∧
        lookup ms tag = some m.value ∧
        searchString (tempTag tag) (text ms) = some (m.named ++ joined ',' r) ∧
        valueStart tag (m.named ++ joined ',' r) = some (m.value ++ joined ',' r) ∧
        valueEnd (m.value ++ joined ',' r) = some (joined ',' r) := by
  rcases hc.cases with ⟨l, m, r, rfl, hm, hl⟩ | hl
  · have hkey : ∀ x ∈ l, x.key ≠ tag := fun x hx => (hl x hx).key_ne h
    have hlook := lookup_append (r := r) hkey hm
    have hmem : m ∈ l ++ m :: r := by simp
    have hg : ∀ x ∈ l, Blank x.before ∧ Blank x.behind ∧ Blank x.gap :=
      fun x hx => W.blank x (by simp [hx])
    obtain ⟨hbefore, hbehind, hgap⟩ := W.blank m hmem
    obtain ⟨d, u, hu, hd⟩ := joined_eq_cons ',' r
    refine .inr ⟨l, m, r, rfl, hm, hkey, hlook, ?_, ?_, ?_⟩
    · rw [text_eq (by simp)]
      exact h.search_found hl hg hm hbefore (by simp)
    · rw [← hm]
      exact m.valueStart_named hbehind hgap (W.value m hmem) _
    · rw [hu]
      exact (W.value m hmem).valueEnd_append (he _ hlook) hd u
  · exact .inl ⟨lookup_eq_none fun x hx => (hl x hx).key_ne h, h.search_text_none hl W.blank⟩

lemma getDigest_text (n : ℕ) :
    getDigest (text ms) tag n = (lookup ms tag).map fun v => unquote (v.take (n - 1)) := by
  rcases search_cases W h hc he with ⟨hlook, hs⟩ | ⟨l, m, r, -, -, -, hlook, hs, hstart, hend⟩
  · rw [hlook, getDigest, hs]
    rfl
  · have hval : (m.value ++ joined ',' r).take
        ((m.value ++ joined ',' r).length - (joined ',' r).length) = m.value := by
      rw [List.length_append, Nat.add_sub_cancel, List.take_left]
    rw [hlook, getDigest, hs, Option.bind_eq_bind, Option.bind_some, hstart, Option.bind_some,
      hend, Option.bind_some, hval]
    rfl

lemma setDigest_text {length : ℕ} {out : Text}
    (hout : setDigest (text ms) length tag v = some out) :
    out = text (update ms tag v) ∧ tag ∈ ms.map Member.key := by
  rcases search_cases W h hc he with ⟨-, hs⟩ | ⟨l, m, r, rfl, hm, hl, -, hs, hstart, hend⟩
  · rw [setDigest, hs] at hout
    simp at hout
  · have hr : ∀ x ∈ r, x.key ≠ tag := by
      have hnd := W.nodup
      rw [List.map_append, List.map_cons, List.nodup_append, List.nodup_cons] at hnd
      rintro x hx rfl
      exact hnd.2.1.1 (hm ▸ List.mem_map_of_mem hx)
    have htake : (text (l ++ m :: r)).take
        ((text (l ++ m :: r)).length - (m.value ++ joined ',' r).length) =
          bare '{' l ++ sepAfter '{' l ::
            (m.before ++ quoted m.key ++ m.behind ++ ':' :: m.gap) := by
      rw [text_append, List.length_append, Nat.add_sub_cancel, List.take_left]
    rw [setDigest, hs, Option.bind_eq_bind, Option.bind_some, hstart, Option.bind_some,
      hend, Option.bind_some, htake] at hout
    split at hout
    · simp at hout
    · refine ⟨?_, by simp [hm]⟩
      rw [update_append hl hm hr, text_append, ← Option.some.inj hout]
      simp

end

lemma lastBrace_append (ha : a ≠ []) :
    lastBrace (a ++ ['}']) (a ++ ['}']).length = some a.length := by
  obtain ⟨i, hi⟩ : ∃ i, a.length = i + 1 := Nat.exists_eq_succ_of_ne_zero (by simpa using ha)
  have hat : (a ++ ['}'])[i + 1]? = some '}' := by rw [← hi, List.getElem?_concat_length]
  rw [List.length_append, List.length_singleton, hi, lastBrace, if_neg (by simp [hi]), lastBrace,
    if_pos hat]

lemma text_eq_bare (hms : ms ≠ []) : text ms = bare '{' ms ++ ['}'] := by
  have happ := joined_append '{' ms []
  rw [List.append_nil] at happ
  rw [text_eq hms, happ]
  rfl

lemma text_concat (hms : ms ≠ []) (m : Member) :
    text (ms ++ [m]) = bare '{' ms ++ ',' :: (m.text ++ ['}']) := by
  rw [text_eq (by simp), joined_append, sepAfter, if_neg hms]
  rfl

lemma bare_ne_nil (hms : ms ≠ []) : bare c ms ≠ [] := by
  cases ms with
  | nil => exact absurd rfl hms
  | cons m ms => simp [bare]

lemma addDigest_text (hms : ms ≠ []) (hs : searchString (tempTag tag) (text ms) = none)
    (hlen : tag.length + v.length + 4 < 1024) {length : ℕ} {out : Text}
    (hout : addDigest (text ms) length tag v = some out) :
    out = text (ms ++ [Member.plain tag v]) := by
  have hbrace := lastBrace_append (bare_ne_nil (c := '{') hms)
  have hshort : ¬ 1024 ≤ (',' :: (quoted tag ++ ':' :: v)).length := by
    simp [quoted]
    omega
  rw [text_eq_bare hms] at hs hout
  rw [addDigest, hs, if_neg (by simp), hbrace, Option.bind_some] at hout
  simp only [if_neg hshort] at hout
  split at hout
  · simp at hout
  · rw [List.take_left] at hout
    rw [text_concat hms, ← Option.some.inj hout, Member.text, Member.named, Member.plain]
    simp

lemma memberStart_member (hms : ms ≠ []) (p : Text) :
    memberStart (bare '{' ms ++ [',']).reverse ('"' :: p) = some (',' :: '"' :: p) := by
  obtain ⟨b, back, hback⟩ := List.exists_cons_of_ne_nil
    (List.reverse_ne_nil_iff.2 (bare_ne_nil (c := '{') hms))
  rw [List.reverse_append, List.reverse_singleton, List.singleton_append, hback, memberStart,
    if_neg (by simp), if_neg (List.cons_ne_nil b back), memberStart, if_pos (by simp)]

/-- What `remove_digest` takes off again is what `add_digest` has put behind the members. -/
lemma removeDigest_concat (hms : ms ≠ []) (hl : ∀ x ∈ ms, Avoids tag x)
    (hg : ∀ x ∈ ms, Blank x.before ∧ Blank x.behind ∧ Blank x.gap) (hv : Json v) (hends : Ends v)
    (h : Plain tag) : removeDigest (text (ms ++ [Member.plain tag v])) tag = text ms := by
  set m := Member.plain tag v with hm
  have hsearch : searchString (tempTag tag) (text (ms ++ [m])) = some (m.text ++ ['}']) := by
    rw [text_eq (by simp)]
    exact h.search_found hl hg rfl (by simp [hm, Blank, Member.plain]) (by simp)
  have htake : (text (ms ++ [m])).take ((text (ms ++ [m])).length - (m.text ++ ['}']).length) =
      bare '{' ms ++ [','] := by
    have hsplit : text (ms ++ [m]) = (bare '{' ms ++ [',']) ++ (m.text ++ ['}']) := by
      rw [text_concat hms]
      simp
    rw [hsplit, List.length_append, Nat.add_sub_cancel, List.take_left]
  have hback : memberStart (bare '{' ms ++ [',']).reverse (m.text ++ ['}']) =
      some (',' :: (m.text ++ ['}'])) := memberStart_member hms _
  -- from the comma, the length of the tag ends at its last quote
  have hstart : valueStart tag (',' :: (m.text ++ ['}'])) = some (v ++ ['}']) := by
    have hdrop : (',' :: (m.text ++ ['}'])).drop (quoted tag).length =
        '"' :: ':' :: (v ++ ['}']) := by
      have hlen : (quoted tag).length = (',' :: '"' :: tag).length := by simp [quoted]
      rw [hlen]
      simp [Member.text, Member.named, Member.plain, quoted, hm]
    rw [valueStart, hdrop]
    exact congrArg some (dropWhile_gap (g := []) (by simp [Blank]) hv ['}'])
  have hend : valueEnd (v ++ ['}']) = some ['}'] := hv.valueEnd_append hends (.inr rfl) []
  have hfront : (text (ms ++ [m])).take
      ((text (ms ++ [m])).length - (',' :: (m.text ++ ['}'])).length) = bare '{' ms := by
    rw [text_concat hms, List.length_append, Nat.add_sub_cancel, List.take_left]
  have hhead : (',' :: (m.text ++ ['}'])).head? ≠ some '{' := by simp
  simp only [removeDigest, hsearch, htake, hback, Option.bind_eq_bind, Option.bind_some,
    if_neg hhead]
  rw [hstart, Option.bind_some, hend, Option.bind_some, Option.getD_some,
    hfront, text_eq_bare hms]

end SteepSystem.Digests
