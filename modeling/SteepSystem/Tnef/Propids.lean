import SteepSystem.HashTable
import SteepSystem.Containers.Run

/-!
Named properties of a message in TNEF get the ids of the store (`tnef_replace_propid`). The ids
are replaced in place, and a property without a new id is removed by its proptag, which the loop
looks up from the front: an earlier property that has just been given that proptag goes instead.
-/

namespace SteepSystem.Tnef

open SteepSystem.Containers SteepSystem.Lib.Growable

/-- `TAGGED_PROPVAL`; `pvalue` is a pointer to the value. -/
structure TaggedPropval (ν : Type*) where
  proptag : UInt32
  pvalue : ν
deriving DecidableEq

variable {ν : Type*}

/-- The element that is read at an index. -/
def elemAt (a : Arr (TaggedPropval ν)) (i : ℕ) : Option (TaggedPropval ν) := a.block[i]?.join

def propidOf (proptag : UInt32) : UInt16 := (proptag >>> 16).toUInt16

/-- Another id with the type that a proptag has. -/
def withPropid (proptag : UInt32) (propid : UInt16) : UInt32 :=
  (proptag &&& (0xFFFF : UInt32)) ||| (propid.toUInt32 <<< 16)

/-- The loop of `tnef_replace_propid` from an index on, for so many turns. -/
def replaceLoop (phash : HashTable UInt16 UInt16) :
    ℕ → ℕ → Arr (TaggedPropval ν) → Option (Arr (TaggedPropval ν))
  | 0, _, _ => none
  | n + 1, i, pproplist =>
    if i < pproplist.count then do
      let x ← elemAt pproplist i
      if propidOf x.proptag &&& 0x8000 = 0 then replaceLoop phash n (i + 1) pproplist
      else
        match phash.query (propidOf x.proptag) with
        | none =>
          -- the index steps back and on again
          replaceLoop phash n i (← removeKey TaggedPropval.proptag pproplist x.proptag)
        | some propid =>
          if propid = 0 then
            replaceLoop phash n i (← removeKey TaggedPropval.proptag pproplist x.proptag)
          else
            replaceLoop phash n (i + 1)
              (← pproplist.write i (some { x with proptag := withPropid x.proptag propid }))
    else some pproplist

/-- `tnef_replace_propid`: each turn passes an element or takes one away. -/
def tnefReplacePropid (phash : HashTable UInt16 UInt16) (pproplist : Arr (TaggedPropval ν)) :
    Option (Arr (TaggedPropval ν)) :=
  replaceLoop phash (pproplist.count + 1) 0 pproplist

/-! What the ids of the properties are to be. -/

def IsNamed (x : TaggedPropval ν) : Prop := propidOf x.proptag &&& 0x8000 ≠ 0

instance (x : TaggedPropval ν) : Decidable (IsNamed x) := inferInstanceAs (Decidable (_ ≠ _))

variable (phash : HashTable UInt16 UInt16)

/-- The id that a named property is mapped to; zero is none. -/
def newPropid (x : TaggedPropval ν) : Option UInt16 :=
  (phash.query (propidOf x.proptag)).filter (· ≠ 0)

/-- A property with its new id, unless it is a named one that is not mapped. -/
def replaced (x : TaggedPropval ν) : Option (TaggedPropval ν) :=
  if IsNamed x then
    (newPropid phash x).map fun propid => { x with proptag := withPropid x.proptag propid }
  else some x

/-- No property is to be removed whose proptag an earlier one is given. -/
def NoClash (props : List (TaggedPropval ν)) : Prop :=
  props.Pairwise fun x y => replaced phash y = none →
    ∀ x' ∈ replaced phash x, x'.proptag ≠ y.proptag

/-- What the loop makes of the elements behind those it has passed. -/
def passed : List (TaggedPropval ν) → List (TaggedPropval ν) → List (TaggedPropval ν)
  | done, [] => done
  | done, x :: rest =>
    match replaced phash x with
    | some y => passed (done ++ [y]) rest
    | none =>
      if x.proptag ∈ done.map TaggedPropval.proptag then
        passed (done.eraseP (·.proptag = x.proptag) ++ [x]) rest
      else passed done rest

variable {phash} {a : Arr (TaggedPropval ν)} {props done rest : List (TaggedPropval ν)}
  {x y : TaggedPropval ν}

lemma elemAt_eq (h : a.Holds (done ++ x :: rest)) : elemAt a done.length = some x := by
  obtain ⟨-, behind, hblock⟩ := h
  rw [elemAt, hblock]
  simp

/-- An element written over another one. -/
lemma keeps_write (h : Container.tpropvalArray.Keeps a (done ++ x :: rest)) (y : TaggedPropval ν) :
    ∃ a', a.write done.length (some y) = some a' ∧
      Container.tpropvalArray.Keeps a' (done ++ y :: rest) := by
  obtain ⟨hwrite, hold⟩ := h.holds.set (i := done.length) (by simp) y
  refine ⟨_, hwrite, ⟨by simpa using hold, ?_, h.most⟩⟩
  simpa using h.room

/-- The first element with a proptag is the last one passed, or an earlier one. -/
lemma keeps_remove (h : Container.tpropvalArray.Keeps a (done ++ x :: rest)) :
    ∃ a', removeKey TaggedPropval.proptag a x.proptag = some a' ∧
      Container.tpropvalArray.Keeps a'
        (if x.proptag ∈ done.map TaggedPropval.proptag then
          (done.eraseP (·.proptag = x.proptag) ++ [x]) ++ rest
        else done ++ rest) := by
  obtain ⟨a', heq, hkeeps⟩ := Container.removeKey_spec TaggedPropval.proptag h x.proptag
  refine ⟨a', heq, ?_⟩
  split_ifs with hmem
  · obtain ⟨y, hy, htag⟩ := List.mem_map.mp hmem
    rw [List.eraseP_append_left (by simpa using htag) _ hy] at hkeeps
    rwa [List.append_assoc, List.singleton_append]
  · rw [List.eraseP_append_right _ fun y hy => by
      simpa using fun htag => hmem (List.mem_map.mpr ⟨y, hy, htag⟩)] at hkeeps
    rwa [List.eraseP_cons_of_pos (by simp)] at hkeeps

/-- What a turn makes of an element. -/
lemma replaceLoop_succ {n : ℕ} (h : a.Holds (done ++ x :: rest)) :
    replaceLoop phash (n + 1) done.length a =
      if ¬ IsNamed x then replaceLoop phash n (done.length + 1) a
      else match newPropid phash x with
        | none => (removeKey TaggedPropval.proptag a x.proptag).bind
            (replaceLoop phash n done.length)
        | some propid => (a.write done.length (some
              { x with proptag := withPropid x.proptag propid })).bind
            (replaceLoop phash n (done.length + 1)) := by
  have hcount := h.count_eq
  rw [List.length_append, List.length_cons] at hcount
  have hlt : done.length < a.count := by omega
  rw [replaceLoop, if_pos hlt, elemAt_eq h, Option.bind_eq_bind, Option.bind_some]
  by_cases hnamed : propidOf x.proptag &&& 0x8000 = 0
  · have hunnamed : ¬ IsNamed x := not_not.mpr hnamed
    rw [if_pos hnamed, if_pos hunnamed]
  · have hnamed' : IsNamed x := hnamed
    rw [if_neg hnamed, if_neg (not_not.mpr hnamed'), newPropid]
    cases hquery : phash.query (propidOf x.proptag) with
    | none => rfl
    | some propid =>
      by_cases hzero : propid = 0
      · have hnone : (some propid).filter (· ≠ 0) = none := by simp [hzero]
        rw [hnone]
        exact if_pos hzero
      · have hsome : (some propid).filter (· ≠ 0) = some propid := by simp [hzero]
        rw [hsome]
        exact if_neg hzero

/-- The loop ends, with all elements passed. -/
lemma replaceLoop_eq {n : ℕ} (h : Container.tpropvalArray.Keeps a (done ++ rest))
    (hn : rest.length < n) : ∃ a', replaceLoop phash n done.length a = some a' ∧
      Container.tpropvalArray.Keeps a' (passed phash done rest) := by
  induction rest generalizing n done a with
  | nil =>
    obtain ⟨n, rfl⟩ : ∃ m, n = m + 1 := ⟨n - 1, by omega⟩
    have hcount := h.holds.count_eq
    rw [List.append_nil] at h hcount
    rw [replaceLoop, if_neg (by omega)]
    exact ⟨a, rfl, h⟩
  | cons x rest ih =>
    obtain ⟨n, rfl⟩ : ∃ m, n = m + 1 := ⟨n - 1, by omega⟩
    rw [List.length_cons] at hn
    have hlength (y : TaggedPropval ν) : (done ++ [y]).length = done.length + 1 := by simp
    rw [replaceLoop_succ h.holds, passed, replaced]
    by_cases hnamed : IsNamed x
    · rw [if_neg (not_not.mpr hnamed), if_pos hnamed]
      cases hnew : newPropid phash x with
      | none =>
        obtain ⟨a', heq, hkeeps⟩ := keeps_remove h
        simp only [heq, Option.bind_some, Option.map_none]
        split_ifs at hkeeps ⊢ with hmem
        · -- as many elements passed, for one of them is gone and this one stays
          have hone : (done.eraseP (·.proptag = x.proptag) ++ [x]).length = done.length := by
            obtain ⟨y, hy, htag⟩ := List.mem_map.mp hmem
            have hpos := List.length_pos_of_mem hy
            have herase : (done.eraseP (·.proptag = x.proptag)).length = done.length - 1 :=
              List.length_eraseP_of_mem hy (by simpa using htag)
            rw [List.length_append, List.length_singleton, herase]
            omega
          rw [← hone]
          exact ih hkeeps (by omega)
        · exact ih hkeeps (by omega)
      | some propid =>
        obtain ⟨a', heq, hkeeps⟩ := keeps_write h { x with proptag := withPropid x.proptag propid }
        simp only [heq, Option.bind_some, Option.map_some]
        rw [← hlength]
        exact ih (by simpa using hkeeps) (by omega)
    · rw [if_pos hnamed, if_neg hnamed]
      dsimp only
      rw [← hlength x]
      exact ih (by simpa using h) (by omega)

/-! When the result is the list with all ids replaced. -/

lemma passed_append (done l rest : List (TaggedPropval ν)) :
    passed phash done (l ++ rest) = passed phash (passed phash done l) rest := by
  induction l generalizing done with
  | nil => rfl
  | cons x l ih =>
    rw [List.cons_append, passed, passed]
    cases replaced phash x with
    | some y => exact ih _
    | none =>
      dsimp only
      split_ifs
      · exact ih _
      · exact ih _

/-- An element stays unless a property with its proptag is to be removed. -/
lemma mem_passed (hx : x ∈ done)
    (h : ∀ y ∈ rest, replaced phash y = none → y.proptag ≠ x.proptag) :
    x ∈ passed phash done rest := by
  induction rest generalizing done with
  | nil => exact hx
  | cons y rest ih =>
    have hrest : ∀ z ∈ rest, replaced phash z = none → z.proptag ≠ x.proptag :=
      fun z hz => h z (List.mem_cons_of_mem y hz)
    rw [passed]
    cases hy : replaced phash y with
    | some z => exact ih (List.mem_append_left _ hx) hrest
    | none =>
      have hne := h y List.mem_cons_self hy
      dsimp only
      split_ifs
      · refine ih (List.mem_append_left _ ?_) hrest
        exact (List.mem_eraseP_of_neg (by simpa using hne.symm)).mpr hx
      · exact ih hx hrest

lemma passed_eq (hdone : ∀ z ∈ done, ∀ y ∈ rest, replaced phash y = none → z.proptag ≠ y.proptag)
    (h : NoClash phash rest) :
    passed phash done rest = done ++ rest.filterMap (replaced phash) := by
  induction rest generalizing done with
  | nil => simp [passed]
  | cons x rest ih =>
    obtain ⟨hx, hrest⟩ := List.pairwise_cons.mp h
    have hdone' : ∀ z ∈ done, ∀ y ∈ rest, replaced phash y = none → z.proptag ≠ y.proptag :=
      fun z hz y hy => hdone z hz y (List.mem_cons_of_mem x hy)
    rw [passed]
    cases hnew : replaced phash x with
    | some x' =>
      dsimp only
      rw [List.filterMap_cons_some hnew, ih _ hrest]
      · simp
      · intro z hz y hy hnone
        rcases List.mem_append.mp hz with hz | hz
        · exact hdone' z hz y hy hnone
        · rw [List.mem_singleton.mp hz]
          exact hx y hy hnone x' hnew
    | none =>
      have hmem : ¬ x.proptag ∈ done.map TaggedPropval.proptag := by
        rintro hmem
        obtain ⟨z, hz, htag⟩ := List.mem_map.mp hmem
        exact hdone z hz x List.mem_cons_self hnew htag
      dsimp only
      rw [if_neg hmem, List.filterMap_cons_none hnew]
      exact ih hdone' hrest

/-- A property that should be removed stays in the place of the one that has got its proptag. -/
lemma mem_passed_of_clash {l m r : List (TaggedPropval ν)} {x x' y : TaggedPropval ν}
    (htags : ((l ++ x :: (m ++ y :: r)).map TaggedPropval.proptag).Nodup)
    (hx : replaced phash x = some x') (hy : replaced phash y = none)
    (htag : x'.proptag = y.proptag) : y ∈ passed phash [] (l ++ x :: (m ++ y :: r)) := by
  simp only [List.map_append, List.map_cons, List.nodup_append, List.nodup_cons] at htags
  have hm : ∀ z ∈ m, z.proptag ≠ y.proptag := fun z hz heq =>
    htags.2.1.2.2.2 _ (List.mem_map_of_mem hz) _ List.mem_cons_self heq
  have hr : ∀ z ∈ r, z.proptag ≠ y.proptag := fun z hz heq =>
    htags.2.1.2.2.1.1 (List.mem_map.mpr ⟨z, hz, heq⟩)
  have hmem : x' ∈ passed phash (passed phash [] l ++ [x']) m :=
    mem_passed (by simp) fun z hz _ => htag ▸ hm z hz
  rw [passed_append, passed, hx]
  dsimp only
  rw [passed_append, passed, hy]
  dsimp only
  rw [if_pos (List.mem_map.mpr ⟨x', hmem, htag⟩)]
  exact mem_passed (by simp) fun z hz _ => hr z hz

lemma noClash_of_passed (htags : (props.map TaggedPropval.proptag).Nodup)
    (hvalues : (props.map TaggedPropval.pvalue).Nodup)
    (h : passed phash [] props = props.filterMap (replaced phash)) : NoClash phash props := by
  refine List.pairwise_iff_forall_sublist.mpr fun {x y} hsub hnone x' hx htag => ?_
  obtain ⟨r₁, r₂, rfl, hx₁, hy₂⟩ := List.cons_sublist_iff.mp hsub
  obtain ⟨l, m, rfl⟩ := List.append_of_mem hx₁
  obtain ⟨m', r, rfl⟩ := List.append_of_mem (List.singleton_sublist.mp hy₂)
  have hsplit : (l ++ x :: m) ++ (m' ++ y :: r) = l ++ x :: ((m ++ m') ++ y :: r) := by simp
  rw [hsplit] at htags hvalues h
  have hmem := mem_passed_of_clash htags hx hnone htag
  -- then its value would come from another property
  rw [h, List.mem_filterMap] at hmem
  obtain ⟨z, hz, hzy⟩ := hmem
  have hvalue : z.pvalue = y.pvalue := by
    unfold replaced at hzy
    split_ifs at hzy with hnamed
    · obtain ⟨propid, -, rfl⟩ := Option.map_eq_some_iff.mp hzy
      rfl
    · rw [Option.some.inj hzy]
  obtain rfl := List.inj_on_of_nodup_map hvalues hz (by simp) hvalue
  rw [hnone] at hzy
  cases hzy

/-- `tnef_replace_propid` ends for every list. The result is the list with the ids replaced if no
property is to be removed whose proptag an earlier one is given, and only then, the values being
objects of their own. -/
theorem tnefReplacePropid_iff (phash : HashTable UInt16 UInt16) (a : Arr (TaggedPropval ν))
    (props : List (TaggedPropval ν)) (h : Container.tpropvalArray.Keeps a props)
    (htags : (props.map TaggedPropval.proptag).Nodup) :
    ∃ a', tnefReplacePropid phash a = some a' ∧
      (NoClash phash props → a'.Holds (props.filterMap (replaced phash))) ∧
      ((props.map TaggedPropval.pvalue).Nodup → a'.Holds (props.filterMap (replaced phash)) →
        NoClash phash props) := by
  have hcount := h.holds.count_eq
  obtain ⟨a', heq, hkeeps⟩ := @replaceLoop_eq _ phash a [] props (a.count + 1) h (by omega)
  refine ⟨a', heq, fun hclash => ?_, fun hvalues hholds => ?_⟩
  · rw [← List.nil_append (props.filterMap _), ← passed_eq (by simp) hclash]
    exact hkeeps.holds
  · refine noClash_of_passed htags hvalues ?_
    exact Option.some.inj (hkeeps.holds.elems_eq.symm.trans hholds.elems_eq)

/-- Two properties, the second of which has the id that the first is given, and no new one. -/
def twoProps : Arr (TaggedPropval ℕ) :=
  ⟨[some ⟨0x80010003, 1⟩, some ⟨0x80020003, 2⟩] ++ List.replicate 98 none, 2⟩

lemma twoProps_keeps :
    Container.tpropvalArray.Keeps twoProps [⟨0x80010003, 1⟩, ⟨0x80020003, 2⟩] :=
  ⟨⟨rfl, _, rfl⟩, by decide, by decide⟩

/-- With an id for the second property as well. -/
theorem tnefReplacePropid_two : ∃ a', tnefReplacePropid
    ⟨4096, [(0x8001, 0x8002), (0x8002, 0x8001)]⟩ twoProps = some a' ∧
      (NoClash ⟨4096, [(0x8001, 0x8002), (0x8002, 0x8001)]⟩
        [(⟨0x80010003, 1⟩ : TaggedPropval ℕ), ⟨0x80020003, 2⟩] →
        a'.Holds ([⟨0x80010003, 1⟩, ⟨0x80020003, 2⟩].filterMap
          (replaced ⟨4096, [(0x8001, 0x8002), (0x8002, 0x8001)]⟩))) ∧
      (([(⟨0x80010003, 1⟩ : TaggedPropval ℕ), ⟨0x80020003, 2⟩].map TaggedPropval.pvalue).Nodup →
        a'.Holds ([⟨0x80010003, 1⟩, ⟨0x80020003, 2⟩].filterMap
          (replaced ⟨4096, [(0x8001, 0x8002), (0x8002, 0x8001)]⟩)) →
        NoClash ⟨4096, [(0x8001, 0x8002), (0x8002, 0x8001)]⟩
          [(⟨0x80010003, 1⟩ : TaggedPropval ℕ), ⟨0x80020003, 2⟩]) :=
  tnefReplacePropid_iff ⟨4096, [(0x8001, 0x8002), (0x8002, 0x8001)]⟩ twoProps
    [⟨0x80010003, 1⟩, ⟨0x80020003, 2⟩] twoProps_keeps (by decide)

/-- Without one, the first property is removed and the second stays as it is. -/
theorem tnefReplacePropid_clash :
    (tnefReplacePropid ⟨4096, [(0x8001, 0x8002)]⟩ twoProps).bind Arr.elems =
        some [⟨0x80020003, 2⟩] ∧
      [(⟨0x80010003, 1⟩ : TaggedPropval ℕ), ⟨0x80020003, 2⟩].filterMap
        (replaced ⟨4096, [(0x8001, 0x8002)]⟩) = [⟨0x80020003, 1⟩] := by
  decide +kernel

end SteepSystem.Tnef
