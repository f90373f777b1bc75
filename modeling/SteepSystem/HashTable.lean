import Mathlib.Tactic
import Mathlib.Data.List.Nodup

/-!
The fixed-capacity hash tables of `int_hash.c` and `str_hash.c`, which differ in the key type
only. A table is the list its iterator walks, oldest item first; the bucket an item hangs in
does not matter to a query.
-/

namespace SteepSystem

open scoped List

structure HashTable (κ ν : Type*) where
  capacity : ℕ
  items : List (κ × ν)
  deriving DecidableEq

namespace HashTable

variable {κ ν : Type*} [DecidableEq κ]

def init (maxItems : ℕ) : HashTable κ ν := ⟨maxItems, []⟩

def query (ptbl : HashTable κ ν) (key : κ) : Option ν := ptbl.items.lookup key

def add (ptbl : HashTable κ ν) (key : κ) (value : ν) : ℤ × HashTable κ ν :=
  if ptbl.items.length ≥ ptbl.capacity then (-2, ptbl)
  else if (ptbl.query key).isSome then (-4, ptbl)
  else (1, { ptbl with items := ptbl.items ++ [(key, value)] })

def remove (ptbl : HashTable κ ν) (key : κ) : HashTable κ ν :=
  { ptbl with items := ptbl.items.eraseP fun e => e.1 == key }

/-- A store through the pointer that the query for `key` returned. -/
def store (ptbl : HashTable κ ν) (key : κ) (value : ν) : HashTable κ ν :=
  { ptbl with items := ptbl.items.map fun e => if e.1 = key then (key, value) else e }

/-- Every item of a table is put in another, as growing it does. -/
def addAll (ptbl : HashTable κ ν) (items : List (κ × ν)) : HashTable κ ν :=
  items.foldl (fun t e => (t.add e.1 e.2).2) ptbl

/-- No key is in the table twice. -/
def Keyed (ptbl : HashTable κ ν) : Prop := (ptbl.items.map Prod.fst).Nodup

variable {ptbl : HashTable κ ν} {key k : κ} {value : ν}

lemma query_eq_none_iff : ptbl.query key = none ↔ key ∉ ptbl.items.map Prod.fst := by
  unfold query
  induction ptbl.items with
  | nil => simp
  | cons e l ih =>
    obtain ⟨k, v⟩ := e
    by_cases h : key = k
    · simp [h]
    · have hne : (key == k) = false := beq_eq_false_iff_ne.mpr h
      rw [List.lookup_cons, hne, List.map_cons, List.mem_cons, not_or]
      exact ih.trans ⟨fun hl => ⟨h, hl⟩, And.right⟩

lemma query_eq_some_iff (h : ptbl.Keyed) :
    ptbl.query key = some value ↔ (key, value) ∈ ptbl.items := by
  unfold query
  unfold Keyed at h
  generalize ptbl.items = items at h ⊢
  induction items with
  | nil => simp
  | cons e l ih =>
    obtain ⟨k, v⟩ := e
    rw [List.map_cons, List.nodup_cons] at h
    by_cases hk : key = k
    · subst hk
      have hl : (key, value) ∉ l := fun hm => h.1 (List.mem_map.mpr ⟨_, hm, rfl⟩)
      simp [hl, eq_comm]
    · have hne : (key == k) = false := beq_eq_false_iff_ne.mpr hk
      rw [List.lookup_cons, hne, List.mem_cons]
      refine (ih h.2).trans ⟨.inr, fun hm => hm.resolve_left fun he => hk ?_⟩
      exact congrArg Prod.fst he

lemma add_of_room (hroom : ptbl.items.length < ptbl.capacity) (hkey : ptbl.query key = none) :
    ptbl.add key value = (1, { ptbl with items := ptbl.items ++ [(key, value)] }) := by
  rw [add, if_neg (by omega), hkey]
  rfl

lemma add_fst_ne_one (h : ¬ (ptbl.items.length < ptbl.capacity ∧ ptbl.query key = none)) :
    (ptbl.add key value).1 ≠ 1 := by
  unfold add
  split_ifs with h1 h2
  · simp
  · simp
  · exact absurd ⟨by omega, by simpa using h2⟩ h

/-- Removing a key takes its one item out. -/
lemma items_remove {rest : List (κ × ν)} (hkeyed : ptbl.Keyed)
    (h : ptbl.items ~ (key, value) :: rest) : (ptbl.remove key).items ~ rest := by
  have hpair : ptbl.items.Pairwise fun a b =>
      (a.1 == key) = true → (b.1 == key) = true → False := by
    unfold Keyed at hkeyed
    rw [List.Nodup, List.pairwise_map] at hkeyed
    refine hkeyed.imp fun hne ha hb => hne ?_
    rw [beq_iff_eq] at ha hb
    exact ha.trans hb.symm
  have := List.Perm.eraseP _ hpair h
  simpa [remove] using this

lemma Keyed.remove (h : ptbl.Keyed) : (ptbl.remove key).Keyed :=
  h.sublist (List.eraseP_sublist.map _)

lemma Keyed.append (h : ptbl.Keyed) (hq : ptbl.query key = none) :
    Keyed ⟨ptbl.capacity, ptbl.items ++ [(key, value)]⟩ := by
  rw [query_eq_none_iff] at hq
  rw [Keyed, List.map_append, List.nodup_append]
  refine ⟨h, by simp, ?_⟩
  rintro k hk k' hk' rfl
  simp only [List.map_cons, List.map_nil, List.mem_singleton] at hk'
  exact hq (hk' ▸ hk)

/-- Removing the keys of some of the items leaves the others. -/
theorem items_foldl_remove {α : Type*} (entry : α → κ × ν) (victims : List α)
    {rest : List (κ × ν)} (hkeyed : ptbl.Keyed) (h : ptbl.items ~ victims.map entry ++ rest) :
    (victims.foldl (fun t a => t.remove (entry a).1) ptbl).items ~ rest := by
  induction victims generalizing ptbl with
  | nil => simpa using h
  | cons a l ih => exact ih hkeyed.remove (items_remove hkeyed h)

lemma query_store : (ptbl.store key value).query k =
    if k = key then (ptbl.query key).map fun _ => value else ptbl.query k := by
  unfold store query
  simp only
  induction ptbl.items with
  | nil => simp
  | cons e l ih =>
    obtain ⟨k', v'⟩ := e
    rw [List.map_cons]
    by_cases hk' : k' = key
    · subst hk'
      by_cases hk : k = k'
      · simp [hk]
      · have hne : (k == k') = false := beq_eq_false_iff_ne.mpr hk
        rw [if_pos rfl, List.lookup_cons, hne, if_neg hk, List.lookup_cons, hne]
        rw [if_neg hk] at ih
        exact ih
    · rw [if_neg hk']
      by_cases hk : k = k'
      · subst hk
        simp [hk']
      · have hne : (k == k') = false := beq_eq_false_iff_ne.mpr hk
        have hne' : (key == k') = false := beq_eq_false_iff_ne.mpr (Ne.symm hk')
        simp only [List.lookup_cons, hne, hne']
        exact ih

lemma keys_store : (ptbl.store key value).items.map Prod.fst = ptbl.items.map Prod.fst := by
  unfold store
  rw [List.map_map]
  refine List.map_congr_left fun e _ => ?_
  by_cases h : e.1 = key <;> simp [h]

lemma query_append (h : ptbl.query key = none) :
    HashTable.query ⟨ptbl.capacity, ptbl.items ++ [(key, value)]⟩ k =
      if k = key then some value else ptbl.query k := by
  unfold query at h ⊢
  rw [List.lookup_append]
  by_cases hk : k = key
  · subst hk
    simp [h]
  · have hne : (k == key) = false := beq_eq_false_iff_ne.mpr hk
    rw [if_neg hk, List.lookup_cons, hne]
    simp

/-- An item that was put in last is taken out again. -/
lemma remove_append (h : ptbl.query key = none) :
    HashTable.remove ⟨ptbl.capacity, ptbl.items ++ [(key, value)]⟩ key = ptbl := by
  have hnot : ∀ e ∈ ptbl.items, ¬ (e.1 == key) = true := by
    intro e he hek
    rw [query_eq_none_iff] at h
    exact h (List.mem_map.mpr ⟨e, he, beq_iff_eq.mp hek⟩)
  rw [remove, List.eraseP_append_right _ hnot]
  simp

lemma length_remove (h : (ptbl.query key).isSome) :
    (ptbl.remove key).items.length = ptbl.items.length - 1 := by
  have hmem : key ∈ ptbl.items.map Prod.fst := by
    by_contra hn
    rw [query_eq_none_iff.mpr hn] at h
    cases h
  obtain ⟨e, he, hek⟩ := List.mem_map.mp hmem
  exact List.length_eraseP_of_mem he (by simp [hek])

lemma query_remove (h : ptbl.Keyed) :
    (ptbl.remove key).query k = if k = key then none else ptbl.query k := by
  have hr : (ptbl.remove key).Keyed := h.remove
  cases hq : ptbl.query key with
  | none =>
    have hnot : ∀ e ∈ ptbl.items, ¬ (e.1 == key) = true := by
      intro e he hek
      rw [query_eq_none_iff] at hq
      exact hq (List.mem_map.mpr ⟨e, he, beq_iff_eq.mp hek⟩)
    have hsame : ptbl.remove key = ptbl := by rw [remove, List.eraseP_of_forall_not hnot]
    rw [hsame]
    split_ifs with hk
    · exact hk ▸ hq
    · rfl
  | some v =>
    rw [query_eq_some_iff h] at hq
    obtain ⟨rest, hrest⟩ : ∃ rest, ptbl.items ~ (key, v) :: rest := by
      obtain ⟨l₁, l₂, hl⟩ := List.append_of_mem hq
      exact ⟨l₁ ++ l₂, hl ▸ List.perm_middle⟩
    have hperm := items_remove h hrest
    have hmem : ∀ e, e ∈ ptbl.items ↔ e = (key, v) ∨ e ∈ (ptbl.remove key).items := by
      intro e
      rw [hrest.mem_iff, hperm.mem_iff, List.mem_cons]
    have hkey : key ∉ (ptbl.remove key).items.map Prod.fst := by
      have := (hrest.map Prod.fst).nodup_iff.mp h
      rw [(hperm.map Prod.fst).mem_iff]
      exact (List.nodup_cons.mp this).1
    split_ifs with hk
    · rw [hk, query_eq_none_iff]
      exact hkey
    · ext w
      rw [query_eq_some_iff hr, query_eq_some_iff h, hmem]
      exact ⟨.inr, fun hw => hw.resolve_left fun he => hk (congrArg Prod.fst he)⟩

section Counts

variable {ptbl : HashTable κ ℕ} {m m' : List κ}

/-- The table holds, for each key that is in the list, how often it is there. -/
structure Counts (ptbl : HashTable κ ℕ) (m : List κ) : Prop where
  keyed : ptbl.Keyed
  query : ∀ k, ptbl.query k = if m.count k = 0 then none else some (m.count k)

lemma Counts.perm (h : Counts ptbl m) (hp : m ~ m') : Counts ptbl m' :=
  ⟨h.keyed, fun k => by rw [h.query k, hp.count_eq]⟩

lemma counts_init (n : ℕ) : Counts (init n) ([] : List κ) :=
  ⟨List.nodup_nil, fun _ => rfl⟩

/-- A table of counts is no longer than the list it counts. -/
lemma Counts.length_le (h : Counts ptbl m) : ptbl.items.length ≤ m.length := by
  have hsub : ptbl.items.map Prod.fst ⊆ m := by
    intro k hk
    by_contra hm
    have := h.query k
    rw [if_pos (List.count_eq_zero.mpr hm), query_eq_none_iff] at this
    exact this hk
  simpa using (List.subperm_of_subset h.keyed hsub).length_le

/-- **One more.** A key that is not there is put in with count one, another one's count goes
up. -/
theorem Counts.cons (h : Counts ptbl m) (hroom : m.length < ptbl.capacity) (key : κ) :
    Counts (match ptbl.query key with
      | none => (ptbl.add key 1).2
      | some ref => ptbl.store key (ref + 1)) (key :: m) := by
  cases hq : ptbl.query key with
  | none =>
    have hm : m.count key = 0 := by
      by_contra hm
      rw [h.query key, if_neg hm] at hq
      exact absurd hq (by simp)
    simp only
    rw [add_of_room (h.length_le.trans_lt hroom) hq]
    constructor
    · exact h.keyed.append hq
    · intro k
      rw [query_append hq, h.query k, List.count_cons]
      by_cases hk : k = key
      · subst hk
        simp [hm]
      · simp [hk, Ne.symm hk]
  | some ref =>
    have href : m.count key ≠ 0 ∧ ref = m.count key := by
      rw [h.query key] at hq
      split_ifs at hq with hm
      exact ⟨hm, (Option.some.inj hq).symm⟩
    constructor
    · rw [Keyed, keys_store]
      exact h.keyed
    · intro k
      rw [query_store, hq, h.query k, List.count_cons]
      by_cases hk : k = key
      · subst hk
        simp [href.2]
      · simp [hk, Ne.symm hk]

/-- **One less.** The count of a key in the list goes down, and at zero the key goes. -/
theorem Counts.tail {key : κ} (h : Counts ptbl (key :: m)) :
    ptbl.query key = some (m.count key + 1) ∧
    Counts (if m.count key + 1 - 1 = 0 then (ptbl.store key (m.count key + 1 - 1)).remove key
      else ptbl.store key (m.count key + 1 - 1)) m := by
  have hq : ptbl.query key = some (m.count key + 1) := by
    rw [h.query key, List.count_cons_self, if_neg (by omega)]
  have hkeyed : (ptbl.store key (m.count key + 1 - 1)).Keyed := by
    rw [Keyed, keys_store]
    exact h.keyed
  have hquery : ∀ k, (ptbl.store key (m.count key + 1 - 1)).query k =
      if k = key then some (m.count key) else if m.count k = 0 then none else some (m.count k) := by
    intro k
    rw [query_store, hq, h.query k, List.count_cons]
    by_cases hk : k = key
    · simp [hk]
    · simp [hk, Ne.symm hk]
  refine ⟨hq, ?_⟩
  by_cases hm : m.count key = 0
  · rw [if_pos (by omega)]
    refine ⟨hkeyed.remove, fun k => ?_⟩
    rw [query_remove hkeyed, hquery]
    by_cases hk : k = key
    · simp [hk, hm]
    · simp [hk]
  · rw [if_neg (by omega)]
    refine ⟨hkeyed, fun k => ?_⟩
    rw [hquery]
    by_cases hk : k = key
    · simp [hk, hm]
    · simp [hk]

end Counts

end HashTable

end SteepSystem
