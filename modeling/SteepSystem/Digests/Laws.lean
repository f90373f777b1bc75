import SteepSystem.Digests.Edit

/-!
A digest after an edit is a digest of the same members with one value changed, or with one more
member: what is read from it then follows from the members.
-/

namespace SteepSystem.Digests

variable {tag t v out : Text} {m : Member} {ms : List Member} {length : ℕ}

lemma lookup_cons : lookup (m :: ms) tag = if m.key = tag then some m.value else lookup ms tag := by
  by_cases hm : m.key = tag <;> simp [lookup, hm]

lemma update_cons : update (m :: ms) tag v =
    (if m.key = tag then { m with value := v } else m) :: update ms tag v := rfl

lemma lookup_concat (h : tag ∉ ms.map Member.key) :
    lookup (ms ++ [.plain tag v]) t = if t = tag then some v else lookup ms t := by
  induction ms with
  | nil => simp [lookup, Member.plain, eq_comm]
  | cons m ms ih =>
    simp only [List.map_cons, List.mem_cons, not_or] at h
    rw [List.cons_append, lookup_cons, lookup_cons, ih h.2]
    by_cases hm : m.key = t
    · have ht : t ≠ tag := fun ht => h.1 (hm.trans ht).symm
      rw [if_pos hm, if_neg ht, if_pos hm]
    · rw [if_neg hm, if_neg hm]

lemma lookup_update (h : tag ∈ ms.map Member.key) :
    lookup (update ms tag v) t = if t = tag then some v else lookup ms t := by
  have hother : ∀ k : List Member, t ≠ tag → lookup (update k tag v) t = lookup k t := by
    intro k ht
    induction k with
    | nil => rfl
    | cons m k ih =>
      rw [update_cons, lookup_cons, lookup_cons, ih]
      by_cases hm : m.key = tag
      · have hmt : m.key ≠ t := fun h => ht (h.symm.trans hm)
        rw [if_pos hm, if_neg hmt, if_neg hmt]
      · rw [if_neg hm]
  by_cases ht : t = tag
  · subst ht
    rw [if_pos rfl]
    induction ms with
    | nil => simp at h
    | cons m ms ih =>
      rw [update_cons, lookup_cons]
      by_cases hm : m.key = t
      · simp [hm]
      · rw [if_neg hm, if_neg hm]
        exact ih (by simpa [Ne.symm hm] using h)
  · rw [if_neg ht, hother ms ht]

lemma keys_update : (update ms tag v).map Member.key = ms.map Member.key := by
  rw [update, List.map_map]
  refine List.map_congr_left fun m _ => ?_
  by_cases hm : m.key = tag <;> simp [hm]

lemma WellFormed.update (W : WellFormed ms) (hv : Json v) : WellFormed (update ms tag v) := by
  have hmem : ∀ x ∈ Digests.update ms tag v, ∃ m ∈ ms, x = m ∨ x = { m with value := v } := by
    intro x hx
    obtain ⟨m, hm, rfl⟩ := List.mem_map.1 hx
    refine ⟨m, hm, ?_⟩
    split
    · exact .inr rfl
    · exact .inl rfl
  refine ⟨by rw [keys_update]; exact W.nodup, ?_, ?_, ?_⟩ <;> intro x hx <;>
    obtain ⟨m, hm, rfl | rfl⟩ := hmem x hx
  · exact W.key x hm
  · exact W.key m hm
  · exact W.blank x hm
  · exact W.blank m hm
  · exact W.value x hm
  · exact hv

lemma WellFormed.concat (W : WellFormed ms) (h : tag ∉ ms.map Member.key) (htag : Escaped tag)
    (hv : Json v) : WellFormed (ms ++ [.plain tag v]) where
  nodup := by
    rw [List.map_append, List.nodup_append]
    refine ⟨W.nodup, List.nodup_singleton _, ?_⟩
    rintro k hk l hl rfl
    rw [List.mem_singleton.1 hl] at hk
    exact h hk
  key := List.forall_mem_append.2 ⟨W.key, List.forall_mem_singleton.2 htag⟩
  blank := List.forall_mem_append.2
    ⟨W.blank, List.forall_mem_singleton.2 (by simp [Member.plain, Blank])⟩
  value := List.forall_mem_append.2 ⟨W.value, List.forall_mem_singleton.2 hv⟩

namespace Clear

lemma update_self (hc : Clear tag ms) : Clear tag (update ms tag v) := by
  induction ms with
  | nil => trivial
  | cons m ms ih =>
    rw [update_cons]
    by_cases hm : m.key = tag
    · exact .inl (by rw [if_pos hm]; exact hm)
    · have hc' := hc.resolve_left hm
      rw [if_neg hm]
      exact .inr ⟨hc'.1, ih hc'.2⟩

lemma update_value (hc : Clear t ms) (hv : searchString (tempTag t) v = none) :
    Clear t (update ms tag v) := by
  induction ms with
  | nil => trivial
  | cons m ms ih =>
    rw [update_cons]
    rcases hc with hm | ⟨ha, hc⟩
    · refine .inl ?_
      split <;> exact hm
    · refine .inr ⟨?_, ih hc⟩
      split
      · exact ⟨ha.1, hv⟩
      · exact ha

lemma concat (hc : Clear t ms) (hm : m.key = t ∨ Avoids t m) : Clear t (ms ++ [m]) := by
  induction ms with
  | nil => exact hm.imp_right fun ha => ⟨ha, trivial⟩
  | cons x ms ih =>
    rcases hc with hx | ⟨ha, hc⟩
    · exact .inl hx
    · exact .inr ⟨ha, ih hc⟩

/-- A tag that is not there is avoided by every member. -/
lemma avoids (hc : Clear tag ms) (h : tag ∉ ms.map Member.key) : ∀ x ∈ ms, Avoids tag x := by
  rcases hc.cases with ⟨l, m, r, rfl, rfl, -⟩ | hl
  · simp at h
  · exact hl

end Clear

variable (W : WellFormed ms) (h : Plain tag) (htag : Escaped tag) (hv : Json v)
  (hc : Clear tag ms) (he : ∀ u, lookup ms tag = some u → Ends u)
include W h htag hv hc he

/-- What both edits do to the members. -/
lemma edit_cases (hout : setDigest (text ms) length tag v = some out ∨
      tag ∉ ms.map Member.key ∧ ms ≠ [] ∧ tag.length + v.length + 4 < 1024 ∧
        addDigest (text ms) length tag v = some out) :
    ∃ k, out = text k ∧ WellFormed k ∧ Clear tag k ∧
      (∀ t, lookup k t = if t = tag then some v else lookup ms t) ∧
      (∀ t, Clear t ms → Avoids t (.plain tag v) → Clear t k) ∧
      (tag ∉ ms.map Member.key → ms ≠ [] ∧ k = ms ++ [.plain tag v]) := by
  rcases hout with hset | ⟨hnew, hms, hlen, hadd⟩
  · obtain ⟨rfl, hmem⟩ := setDigest_text W h hc he hset
    exact ⟨_, rfl, W.update hv, hc.update_self, fun t => lookup_update hmem,
      fun t ht ha => ht.update_value ha.2, fun hnew => absurd hmem hnew⟩
  · have hs : searchString (tempTag tag) (text ms) = none :=
      h.search_text_none (hc.avoids hnew) W.blank
    exact ⟨_, addDigest_text hms hs hlen hadd, W.concat hnew htag hv, hc.concat (.inl rfl),
      fun t => lookup_concat hnew, fun t ht ha => ht.concat (.inr ha), fun _ => ⟨hms, rfl⟩⟩

/-- After an edit of a digest in which the quoted tag is first met at its own member, and whose
value ends where the code looks for its end, the tag has its new value and every other one its old
value; the result is a digest, and a member that was added can be removed. -/
theorem getDigest_of_edit (hends : Ends v)
    (hout : setDigest (text ms) length tag v = some out ∨
      tag ∉ ms.map Member.key ∧ ms ≠ [] ∧ tag.length + v.length + 4 < 1024 ∧
        addDigest (text ms) length tag v = some out) :
    (∃ k, out = text k ∧ WellFormed k) ∧
    (∀ n, v.length < n → getDigest out tag n = some (content v)) ∧
    (∀ t ≠ tag, Plain t → Clear t ms → Avoids t (.plain tag v) →
      (∀ u, lookup ms t = some u → Ends u) → ∀ n, getDigest out t n = getDigest (text ms) t n) ∧
    (tag ∉ ms.map Member.key → removeDigest out tag = text ms) := by
  obtain ⟨k, rfl, Wk, hck, hlook, hclear, hnew⟩ := edit_cases W h htag hv hc he hout
  refine ⟨⟨k, rfl, Wk⟩, ?_, ?_, ?_⟩
  · intro n hn
    have hself : lookup k tag = some v := (hlook tag).trans (if_pos rfl)
    have hendk : ∀ u, lookup k tag = some u → Ends u := by
      intro u hu
      obtain rfl := Option.some.inj (hself.symm.trans hu)
      exact hends
    rw [getDigest_text Wk h hck hendk, hself, Option.map_some,
      List.take_of_length_le (by omega), hv.unquote_eq]
  · intro t ht hplain hct ha het n
    have hother : lookup k t = lookup ms t := (hlook t).trans (if_neg ht)
    rw [getDigest_text Wk hplain (hclear t hct ha) (by rwa [hother]), hother,
      getDigest_text W hplain hct het]
  · intro hmem
    obtain ⟨hms, rfl⟩ := hnew hmem
    exact removeDigest_concat hms (hc.avoids hmem) W.blank hv hends h

omit W h htag hv hc he

lemma json_singleton {c : Char} (hc : c.isAlphanum ∨ c ∈ ['+', '-', '.']) : Json [c] :=
  .scalar (List.cons_ne_nil c []) (List.forall_mem_singleton.2 hc)

/-- `{"a": "x", "b":1}` -/
def twoMembers : List Member :=
  [⟨[], ['a'], [], [' '], quoted ['x']⟩, ⟨[' '], ['b'], [], [], ['1']⟩]

lemma wellFormed_twoMembers : WellFormed twoMembers where
  nodup := by decide
  key := by simp [twoMembers, Escaped]
  blank := by simp [twoMembers, Blank]
  value := by
    rw [twoMembers, List.forall_mem_cons, List.forall_mem_singleton]
    exact ⟨.string (by simp [Escaped]), json_singleton (by decide)⟩

/-- The second member takes another value. -/
theorem getDigest_of_edit_two :
    setDigest (text twoMembers) 100 ['b'] (quoted ['y']) =
      some (text (update twoMembers ['b'] (quoted ['y']))) ∧
    (∀ n, 3 < n →
      getDigest (text (update twoMembers ['b'] (quoted ['y']))) ['b'] n = some ['y']) := by
  have hset : setDigest (text twoMembers) 100 ['b'] (quoted ['y']) =
      some (text (update twoMembers ['b'] (quoted ['y']))) := by decide
  have hplain : Plain ['b'] :=
    ⟨by decide, List.forall_mem_singleton.2 (by decide)⟩
  have hends : ∀ u, lookup twoMembers ['b'] = some u → Ends u := by
    rintro u ⟨⟩
    simp [Ends]
  exact ⟨hset, (getDigest_of_edit wellFormed_twoMembers hplain (by simp [Escaped])
    (.string (by simp [Escaped])) (.inr ⟨⟨by decide, by decide⟩, .inl rfl⟩) hends
    (by simp [Ends, quoted]) (.inl hset)).2.1⟩

/-- `{"a":"b","c":5,"b":1}` -/
def tagInValue : List Member :=
  [⟨[], ['a'], [], [], quoted ['b']⟩, .plain ['c'] ['5'], .plain ['b'] ['1']]

lemma wellFormed_tagInValue : WellFormed tagInValue where
  nodup := by decide
  key := by simp [tagInValue, Member.plain, Escaped]
  blank := by simp [tagInValue, Member.plain, Blank]
  value := by
    rw [tagInValue, List.forall_mem_cons, List.forall_mem_cons, List.forall_mem_singleton]
    exact ⟨.string (by simp [Escaped]), json_singleton (by decide), json_singleton (by decide)⟩

lemma wellFormed_zero : WellFormed [.plain ['a'] ['0']] where
  nodup := by decide
  key := by simp [Member.plain, Escaped]
  blank := by simp [Member.plain, Blank]
  value := List.forall_mem_singleton.2 (json_singleton (by decide))

/-- After `{` a digest has blanks and a quote, or is at its end. -/
lemma text_ne (W : WellFormed ms) (s : Text) : text ms ≠ '{' :: ',' :: s := by
  cases ms with
  | nil => simp [text]
  | cons m ms =>
    have hb := (W.blank m (by simp)).1
    obtain ⟨before, key, behind, gap, value⟩ := m
    rw [text, joined, Member.text, Member.named, quoted]
    cases before with
    | nil => simp
    | cons c before =>
      have hc := hb c (by simp)
      rintro heq
      obtain rfl : c = ',' := by simpa using (List.cons.inj (List.cons.inj heq).2).1
      revert hc
      decide

/-- A value that is the quoted tag is taken for the member, a value ends at its first comma, a
quote behind two backslashes is no end, and the first member comes with a comma. -/
theorem not_getDigest_of_edit :
    (WellFormed tagInValue ∧ ∃ out, setDigest (text tagInValue) 100 ['b'] ['2'] = some out ∧
      getDigest out ['c'] 100 ≠ getDigest (text tagInValue) ['c'] 100) ∧
    (WellFormed [.plain ['a'] ['0']] ∧ Json ['[', '1', ',', '2', ']'] ∧
      ∃ out, setDigest (text [.plain ['a'] ['0']]) 100 ['a'] ['[', '1', ',', '2', ']'] = some out ∧
        getDigest out ['a'] 100 ≠ some (content ['[', '1', ',', '2', ']'])) ∧
    (Json (quoted ['\\', '\\']) ∧
      ∃ out, setDigest (text [.plain ['a'] ['0']]) 100 ['a'] (quoted ['\\', '\\']) = some out ∧
        getDigest out ['a'] 100 ≠ some (content (quoted ['\\', '\\']))) ∧
    (WellFormed [] ∧ ∃ out, addDigest (text []) 100 ['a'] ['1'] = some out ∧
      ∀ k, WellFormed k → text k ≠ out) := by
  refine ⟨⟨wellFormed_tagInValue, _, rfl, by decide⟩, ⟨wellFormed_zero, ?_, _, rfl, by decide⟩,
    ⟨.string (by simp [Escaped]), _, rfl, by decide⟩, ⟨?_, ?_, ?_, ?_⟩, _, rfl, ?_⟩
  · have hblank : Blank [] := by simp [Blank]
    have helements : ∀ e ∈ [Element.mk [] ['1'] [], Element.mk [] ['2'] []],
        Blank e.before ∧ Blank e.behind := by simp [Blank]
    refine Json.array hblank helements ?_
    rw [List.forall_mem_cons, List.forall_mem_singleton]
    exact ⟨json_singleton (by decide), json_singleton (by decide)⟩
  · exact List.nodup_nil
  · simp
  · simp
  · simp
  · exact fun k W => text_ne W _

end SteepSystem.Digests
