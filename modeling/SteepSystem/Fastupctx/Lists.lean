import SteepSystem.Fastupctx.Model

/-!
Paths into a message under construction, and the property list a new folder is made with.
-/

namespace SteepSystem.Fastupctx

open SteepSystem.Lib.Bytes

/-! ### Paths into a message -/

namespace MessageContent

variable {m x y : MessageContent} {path : List ℕ}

/-- The fields of a message make it up. -/
@[simp] lemma eta (m : MessageContent) : MessageContent.mk m.proplist m.prcpts m.pattachments = m := by
  cases m
  rfl

lemma message?_append (p q : List ℕ) :
    m.message? (p ++ q) = (m.message? p).bind fun x => x.message? q := by
  induction p generalizing m with
  | nil => rfl
  | cons i p ih =>
    rw [List.cons_append, message?, message?]
    split
    · exact ih
    · rfl

lemma message?_put (h : m.message? path = some y) : (m.put x path).message? path = some x := by
  induction path generalizing m with
  | nil => rfl
  | cons i path ih =>
    rw [message?] at h
    split at h
    · rename_i l e hi
      have hlt : i < m.pattachments.length := (List.getElem?_eq_some_iff.mp hi).1
      have hset : (m.pattachments.set i (l, some (e.put x path)))[i]? =
          some (l, some (e.put x path)) := by simp [hlt]
      simp only [put, hi, message?, hset]
      exact ih h
    · cases h

lemma isSome_setProplist {e : Element} (l : TpropvalArray) (h : (m.proplist? e).isSome) :
    ((m.setProplist l e).proplist? e) = some l := by
  cases e with
  | message path =>
    cases hx : m.message? path with
    | none => simp [proplist?, hx] at h
    | some x => simp [setProplist, hx, proplist?, message?_put hx]
  | recipient path j =>
    cases hx : m.message? path with
    | none => simp [proplist?, hx] at h
    | some x =>
      simp only [proplist?, hx, Option.bind_some] at h
      have hlt : j < x.prcpts.length := by
        by_contra hle
        simp [List.getElem?_eq_none (not_lt.mp hle)] at h
      simp [setProplist, hx, proplist?, message?_put hx, hlt]
  | attachment path i =>
    cases hx : m.message? path with
    | none => simp [proplist?, hx] at h
    | some x =>
      simp only [proplist?, hx, Option.bind_some] at h
      have hlt : i < x.pattachments.length := by
        by_contra hle
        simp [List.getElem?_eq_none (not_lt.mp hle)] at h
      simp [setProplist, hx, proplist?, message?_put hx, hlt]

lemma message_of_proplist {path : List ℕ} (h : (m.proplist? (.message path)).isSome) :
    ∃ x, m.message? path = some x := by
  cases hx : m.message? path with
  | none => simp [proplist?, hx] at h
  | some x => exact ⟨x, rfl⟩

/-- An attachment or a recipient is there only in a message that is. -/
lemma proplist_of_recipient {path : List ℕ} {j : ℕ}
    (h : (m.proplist? (.recipient path j)).isSome) : (m.proplist? (.message path)).isSome := by
  cases hx : m.message? path with
  | none => simp [proplist?, hx] at h
  | some x => simp [proplist?, hx]

lemma proplist_of_attachment {path : List ℕ} {i : ℕ}
    (h : (m.proplist? (.attachment path i)).isSome) : (m.proplist? (.message path)).isSome := by
  cases hx : m.message? path with
  | none => simp [proplist?, hx] at h
  | some x => simp [proplist?, hx]

lemma proplist_of_embedded {path : List ℕ} {i : ℕ}
    (h : (m.proplist? (.message (path ++ [i]))).isSome) :
    (m.proplist? (.attachment path i)).isSome := by
  obtain ⟨z, hz⟩ := message_of_proplist h
  rw [message?_append] at hz
  cases hx : m.message? path with
  | none => simp [hx] at hz
  | some x =>
    rw [hx, Option.bind_some, message?] at hz
    split at hz
    · rename_i l e hi
      simp [proplist?, hx, hi]
    · cases hz

lemma put_self {m x : MessageContent} {path : List ℕ} (h : m.message? path = some x) :
    m.put x path = m := by
  induction path generalizing m with
  | nil => exact (Option.some.inj h).symm
  | cons i path ih =>
    rw [message?] at h
    split at h
    · rename_i l e hi
      obtain ⟨hlt, hget⟩ := List.getElem?_eq_some_iff.mp hi
      simp only [put, hi, ih h]
      rw [← hget, List.set_getElem_self, eta]
    · cases h

lemma setProplist_self {m : MessageContent} {e : Element} {l : TpropvalArray}
    (h : m.proplist? e = some l) : m.setProplist l e = m := by
  cases e with
  | message path =>
    obtain ⟨x, hx, rfl⟩ := Option.map_eq_some_iff.mp h
    simpa [setProplist, hx] using put_self hx
  | recipient path j =>
    obtain ⟨x, hx, hj⟩ := Option.bind_eq_some_iff.mp h
    obtain ⟨hlt, rfl⟩ := List.getElem?_eq_some_iff.mp hj
    simpa [setProplist, hx] using put_self hx
  | attachment path i =>
    obtain ⟨x, hx, hi⟩ := Option.bind_eq_some_iff.mp h
    obtain ⟨a, ha, rfl⟩ := Option.map_eq_some_iff.mp hi
    have hself : x.pattachments.modify i (fun b => (a.1, b.2)) = x.pattachments := by
      obtain ⟨hlt, rfl⟩ := List.getElem?_eq_some_iff.mp ha
      rw [List.modify_eq_set_getElem?]
      simp [hlt]
    simpa [setProplist, hx, hself] using put_self hx

end MessageContent

/-! ### Property lists -/

lemma getPropval_replace {l : TpropvalArray} {p : TaggedPropval} {tag : ℕ}
    (h : (getPropval l p.proptag).isSome) :
    getPropval (replacePropval p l) tag =
      if p.proptag = tag then some p.value else getPropval l tag := by
  induction l with
  | nil => simp [getPropval] at h
  | cons q l ih =>
    by_cases hq : q.proptag = p.proptag
    · rw [replacePropval, if_pos hq]
      by_cases htag : p.proptag = tag
      · simp [getPropval, htag]
      · have hq' : q.proptag ≠ tag := hq ▸ htag
        simp [getPropval, htag, hq']
    · have h' : (getPropval l p.proptag).isSome := by
        simpa [getPropval, List.find?_cons, hq] using h
      rw [replacePropval, if_neg hq]
      have ih := ih h'
      by_cases htag : q.proptag = tag
      · have hp : p.proptag ≠ tag := fun hp => hq (htag.trans hp.symm)
        simp [getPropval, htag, hp]
      · simpa [getPropval, List.find?_cons, htag] using ih

lemma length_replace (p : TaggedPropval) (l : TpropvalArray) :
    (replacePropval p l).length = l.length := by
  induction l with
  | nil => rfl
  | cons q l ih =>
    rw [replacePropval]
    split
    · rfl
    · simp [ih]

/-- The properties a list would have, with one more for each of `tags` that is absent. -/
def grown (l : TpropvalArray) (tags : List ℕ) : ℕ :=
  l.length + tags.countP fun t => (getPropval l t).isNone

/-- A property set where the count does not wrap. -/
lemma setPropval_cases {l l' : TpropvalArray} {p : TaggedPropval} {mem : Bool}
    (h : setPropval l p mem = (true, l')) (hroom : grown l [p.proptag] < 2 ^ 16) :
    ((getPropval l p.proptag).isSome ∧ l' = replacePropval p l) ∨
      (getPropval l p.proptag = none ∧ l' = l ++ [p]) := by
  unfold setPropval at h
  split_ifs at h with hmem hsome hfull
  · cases h
  · exact .inl ⟨hsome, (Prod.mk.inj h).2.symm⟩
  · have hnone : getPropval l p.proptag = none := by simpa using hsome
    simp only [grown, List.countP_singleton, hnone, Option.isNone_none, if_true] at hroom
    omega
  · exact .inr ⟨by simpa using hsome, (Prod.mk.inj h).2.symm⟩

lemma getPropval_append {l : TpropvalArray} {p : TaggedPropval} {tag : ℕ}
    (h : getPropval l p.proptag = none) :
    getPropval (l ++ [p]) tag = if p.proptag = tag then some p.value else getPropval l tag := by
  by_cases htag : p.proptag = tag
  · subst htag
    have hfind : l.find? (fun q => q.proptag = p.proptag) = none := by
      simpa [getPropval] using h
    simp [getPropval, List.find?_append, hfind]
  · cases hfind : l.find? (fun q => q.proptag = tag) with
    | none => simp [getPropval, List.find?_append, hfind, htag]
    | some q => simp [getPropval, List.find?_append, hfind, htag]

lemma getPropval_set {l l' : TpropvalArray} {p : TaggedPropval} {mem : Bool}
    (h : setPropval l p mem = (true, l')) (hroom : grown l [p.proptag] < 2 ^ 16) (tag : ℕ) :
    getPropval l' tag = if p.proptag = tag then some p.value else getPropval l tag := by
  rcases setPropval_cases h hroom with ⟨hsome, rfl⟩ | ⟨hnone, rfl⟩
  · exact getPropval_replace hsome
  · exact getPropval_append hnone

/-- Room for several properties is room for the first, and then for the others. -/
lemma grown_set {l l' : TpropvalArray} {p : TaggedPropval} {mem : Bool} {tags : List ℕ}
    (h : setPropval l p mem = (true, l')) (hnew : p.proptag ∉ tags)
    (hroom : grown l (p.proptag :: tags) < 2 ^ 16) :
    grown l [p.proptag] < 2 ^ 16 ∧ grown l' tags < 2 ^ 16 := by
  have hfirst : grown l [p.proptag] < 2 ^ 16 := by
    simp only [grown, List.countP_cons, List.countP_nil] at hroom ⊢
    omega
  refine ⟨hfirst, ?_⟩
  have hcount : tags.countP (fun t => (getPropval l' t).isNone) =
      tags.countP fun t => (getPropval l t).isNone := by
    refine List.countP_congr fun t ht => ?_
    have hne : p.proptag ≠ t := fun heq => hnew (heq ▸ ht)
    rw [getPropval_set h hfirst, if_neg hne]
  rcases setPropval_cases h hfirst with ⟨hsome, rfl⟩ | ⟨hnone, rfl⟩
  · simp only [grown, hcount, length_replace, List.countP_cons] at hroom ⊢
    omega
  · simp only [grown, hcount, List.length_append, List.length_singleton, List.countP_cons, hnone,
      Option.isNone_none, if_true] at hroom ⊢
    omega

/-! ### The list of a new folder -/

lemma andThen_true {r : Bool × TpropvalArray} {f : TpropvalArray → Bool × TpropvalArray}
    {l : TpropvalArray} (h : andThen r f = (true, l)) :
    ∃ l', r = (true, l') ∧ f l' = (true, l) := by
  obtain ⟨b, l'⟩ := r
  cases b with
  | false => simp [andThen] at h
  | true => exact ⟨l', rfl, h⟩

/-- The tags of a version. -/
def stampTags : List ℕ := [propTagChangeNumber, propTagChangeKey, propTagPredecessorChangeList]

lemma stampChange_frame {ans : SaveAnswers} {used : ℕ} {l l' : TpropvalArray}
    (h : stampChange ans used l = (true, l')) (hroom : grown l stampTags < 2 ^ 16) {tag : ℕ}
    (htag : tag ∉ stampTags) : getPropval l' tag = getPropval l tag := by
  simp only [stampTags, List.mem_cons, List.not_mem_nil, or_false, not_or] at htag
  obtain ⟨hnum, hkey, hpcl⟩ := htag
  unfold stampChange at h
  split at h
  · cases h
  · obtain ⟨l₁, h₁, h⟩ := andThen_true h
    obtain ⟨hr₁, hroom₁⟩ := grown_set h₁ (show propTagChangeNumber ∉ _ by decide) hroom
    split at h
    · cases h
    · obtain ⟨l₂, h₂, h⟩ := andThen_true h
      obtain ⟨hr₂, hroom₂⟩ := grown_set h₂ (show propTagChangeKey ∉ _ by decide) hroom₁
      split at h
      · cases h
      · rw [getPropval_set h hroom₂, if_neg (Ne.symm hpcl), getPropval_set h₂ hr₂,
          if_neg (Ne.symm hkey), getPropval_set h₁ hr₁, if_neg (Ne.symm hnum)]

/-- Room for what a new folder's list is completed with. -/
def Room (pproplist : TpropvalArray) : Prop :=
  grown (folderTags.foldl removePropval pproplist)
    (propTagFolderType :: propTagParentFolderId :: stampTags) < 2 ^ 16

instance (pproplist : TpropvalArray) : Decidable (Room pproplist) :=
  inferInstanceAs (Decidable (_ < _))

/-- A folder is made below the parent it was given. -/
theorem folderProplist_parent {ans : SaveAnswers} {parentId : ℕ} {l l' : TpropvalArray}
    (h : folderProplist ans parentId l = (true, l')) (hroom : Room l) :
    getPropval l' propTagParentFolderId = some (le 8 parentId) := by
  unfold folderProplist at h
  simp only at h
  split at h
  · cases h
  · obtain ⟨l₁, h₁, h⟩ := andThen_true h
    obtain ⟨-, hroom₁⟩ := grown_set h₁ (show propTagFolderType ∉ _ by decide) hroom
    obtain ⟨l₂, h₂, h⟩ := andThen_true h
    obtain ⟨hr₂, hroom₂⟩ := grown_set h₂ (show propTagParentFolderId ∉ _ by decide) hroom₁
    rw [stampChange_frame h hroom₂ (by decide), getPropval_set h₂ hr₂, if_pos rfl]

end SteepSystem.Fastupctx
