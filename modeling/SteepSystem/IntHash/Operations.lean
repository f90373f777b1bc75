import SteepSystem.IntHash.Layout

/-!
The operations of a table on single keys, against the abstract table.
-/

namespace SteepSystem.IntHash

open SteepSystem.DoubleLists

variable {ν : Type} {ptbl ptbl' : IntHashTable ν} {capacity : ℕ} {index : Int32 → ℕ}
  {s s₀ s₁ : List (ℕ × Int32 × ν)} {bucket : ℕ → List ℕ} {e : ℕ × Int32 × ν} {key : Int32}
  {value : ν} {fuel i n : ℕ}

/-- The table is laid out in some way and has these items. -/
def Models (ptbl : IntHashTable ν) (capacity : ℕ) (index : Int32 → ℕ) (t : HashTable Int32 ν) :
    Prop := ∃ s bucket, Refines ptbl capacity index s bucket ∧ t = content capacity s

lemma Refines.mem_used (h : Refines ptbl capacity index s bucket) (hi : i ∈ bucket n) :
    i ∈ s.map Prod.fst := by
  obtain ⟨e, he, rfl, -⟩ := (h.mem n i).mp hi
  exact List.mem_map_of_mem he

lemma Refines.length_bucket_le (h : Refines ptbl capacity index s bucket) (n : ℕ) :
    (bucket n).length ≤ s.length := by
  have hnodup : (bucket n).Nodup := List.Nodup.of_map _ (h.lists.bucket n).nodup
  have hsub : bucket n ⊆ s.map Prod.fst := fun i hi => h.mem_used hi
  simpa using (List.subperm_of_subset hnodup hsub).length_le

/-- The search finds the item with the key, also while a further slot is being filled. -/
lemma Refines.find (h : Refines ptbl capacity index s bucket) (key : Int32)
    (ptbl' : IntHashTable ν) (hlists : ptbl'.lists = ptbl.lists)
    (hindex : ptbl'.index = index) (hitems : ∀ e ∈ s, ptbl'.items e.1 = ptbl.items e.1)
    (hfuel : s.length ≤ fuel) :
    (∃ e ∈ s, e.2.1 = key ∧ findNode ptbl' fuel key = some (some (.listNode e.1))) ∨
      findNode ptbl' fuel key = some none ∧ key ∉ s.map fun e => e.2.1 := by
  have hitem : ∀ e ∈ s, ptbl'.items e.1 = some ⟨e.2.1, index e.2.1, e.2.2⟩ :=
    fun e he => (hitems e he).trans (h.items e he)
  have hrep : ptbl'.lists.Represents (.hashMap (ptbl'.index key))
      ((bucket (index key)).map .listNode) := by
    rw [hlists, hindex]
    exact h.lists.bucket _
  have hsome : ∀ i ∈ bucket (index key), (ptbl'.items i).isSome := by
    intro i hi
    obtain ⟨e, he, rfl, -⟩ := (h.mem _ i).mp hi
    rw [hitem e he]
    rfl
  have hlen := h.length_bucket_le (index key)
  rcases findNode_spec key hrep hsome (Nat.lt_succ_of_le (hlen.trans hfuel)) with
    ⟨i, hi, hfound, hkey⟩ | ⟨hnone, hall⟩
  · obtain ⟨e, he, rfl, -⟩ := (h.mem _ i).mp hi
    rw [hitem e he] at hkey
    exact .inl ⟨e, he, Option.some.inj hkey, hfound⟩
  · refine .inr ⟨hnone, fun hmem => ?_⟩
    obtain ⟨e, he, rfl⟩ := List.mem_map.mp hmem
    refine hall e.1 ((h.mem _ _).mpr ⟨e, he, rfl, rfl⟩) ?_
    rw [hitem e he]
    rfl

lemma Refines.query_of_mem (h : Refines ptbl capacity index s bucket) (he : e ∈ s) :
    (content capacity s).query e.2.1 = some e.2.2 :=
  (HashTable.query_eq_some_iff h.content_keyed).mpr (List.mem_map_of_mem (f := Prod.snd) he)

lemma query_of_notMem (hkey : key ∉ s.map fun e => e.2.1) :
    (content capacity s).query key = none := by
  rw [HashTable.query_eq_none_iff, content, List.map_map]
  exact hkey

theorem intHashQuery_spec (key : Int32) {t : HashTable Int32 ν} (h : Models ptbl capacity index t)
    (hfuel : capacity ≤ fuel) : intHashQuery ptbl fuel key = some (t.query key) := by
  obtain ⟨s, bucket, h, rfl⟩ := h
  unfold intHashQuery
  rcases h.find key ptbl rfl h.index_eq (fun _ _ => rfl) (h.le.trans hfuel) with
    ⟨e, he, rfl, hfound⟩ | ⟨hnone, hkey⟩
  · have hitem : ptbl.items (Node.listNode e.1).pdata = some ⟨e.2.1, index e.2.1, e.2.2⟩ :=
      h.items e he
    simp only [hfound, hitem, h.query_of_mem he, Option.bind_eq_bind, Option.bind_some]
  · simp only [hnone, query_of_notMem hkey, Option.bind_eq_bind, Option.bind_some]

/-! ### Adding -/

/-- The slot that is filled first and put back if the key is there. -/
lemma Refines.put (h : Refines ptbl capacity index s bucket) {bufPool : LibBuffer}
    {item : IntHashItem ν} (hpool : bufPool.Holds (s.map Prod.fst ++ [i]))
    (hnum : bufPool.itemNum = ptbl.bufPool.itemNum) (hi : i ∉ s.map Prod.fst) :
    Refines (IntHashTable.put { ptbl with
      bufPool := bufPool, items := Function.update ptbl.items i (some item) } i)
      capacity index s bucket := by
  refine ⟨h.capacity_eq, h.index_eq, h.itemNum, hnum.trans h.poolNum, h.le, ?_, h.lists, h.mem,
    fun e he => ?_, h.keyed⟩
  · have hput := hpool.put
    rw [List.append_nil] at hput
    exact hput
  · have hne : e.1 ≠ i := fun heq => hi (heq ▸ List.mem_map_of_mem he)
    simp only [IntHashTable.put, Function.update_of_ne hne]
    exact h.items e he

/-- An item in a slot that was not in use. -/
lemma Refines.insert (h : Refines ptbl capacity index s bucket) {bufPool : LibBuffer}
    {lists : Memory Node ListName} (hpool : bufPool.Holds (s.map Prod.fst ++ [i]))
    (hnum : bufPool.itemNum = ptbl.bufPool.itemNum) (hi : i ∉ s.map Prod.fst)
    (hroom : s.length < capacity) (hkey : key ∉ s.map fun e => e.2.1)
    (hlists : Lists lists (s.map Prod.fst ++ [i])
      (Function.update bucket (index key) (i :: bucket (index key)))) :
    Refines { ptbl with
      bufPool := bufPool
      items := Function.update ptbl.items i (some ⟨key, index key, value⟩)
      lists := lists
      itemNum := ptbl.itemNum + 1 } capacity index (s ++ [(i, key, value)])
      (Function.update bucket (index key) (i :: bucket (index key))) := by
  refine ⟨h.capacity_eq, h.index_eq, ?_, hnum.trans h.poolNum, ?_, ?_, ?_, fun n j => ?_,
    fun e he => ?_, ?_⟩
  · simp [h.itemNum]
  · rw [List.length_append, List.length_singleton]
    omega
  · rw [List.map_append]
    exact hpool
  · rw [List.map_append]
    exact hlists
  · by_cases hn : n = index key
    · subst hn
      rw [Function.update_self, List.mem_cons, h.mem]
      simp only [List.mem_append, List.mem_singleton, or_and_right, exists_or, exists_eq_left]
      simp [or_comm, eq_comm]
    · rw [Function.update_of_ne hn, h.mem]
      simp only [List.mem_append, List.mem_singleton, or_and_right, exists_or, exists_eq_left]
      simp [Ne.symm hn]
  · rcases List.mem_append.mp he with he | he
    · have hne : e.1 ≠ i := fun heq => hi (heq ▸ List.mem_map_of_mem he)
      simp only [Function.update_of_ne hne]
      exact h.items e he
    · obtain rfl := List.mem_singleton.mp he
      simp
  · rw [List.map_append]
    exact List.nodup_append_comm.mp (List.nodup_cons.mpr ⟨hkey, h.keyed⟩)

theorem intHashAdd_spec (key : Int32) (value : ν) {t : HashTable Int32 ν}
    (h : Models ptbl capacity index t) (hfuel : capacity ≤ fuel) :
    ∃ ptbl', intHashAdd ptbl fuel key value = some ((t.add key value).1, ptbl') ∧
      Models ptbl' capacity index (t.add key value).2 := by
  obtain ⟨s, bucket, h, rfl⟩ := h
  have hlen : (content capacity s).items.length = s.length := by simp [content]
  have hcap : (content capacity s).capacity = capacity := rfl
  have hfull : ptbl.itemNum ≥ ptbl.capacity ↔ s.length ≥ capacity := by
    rw [h.itemNum, h.capacity_eq]
  unfold intHashAdd HashTable.add
  rw [hlen, hcap]
  by_cases hroom : s.length ≥ capacity
  · rw [if_pos (hfull.mpr hroom), if_pos hroom]
    exact ⟨ptbl, rfl, s, bucket, h, rfl⟩
  · rw [if_neg fun hc => hroom (hfull.mp hc), if_neg hroom]
    obtain ⟨i, bufPool, hget, hpool, hnum, hi⟩ := h.pool.get (by
      rw [List.length_map, h.poolNum]
      omega)
    simp only [hget, h.index_eq]
    have hother : ∀ e ∈ s, Function.update ptbl.items i (some ⟨key, index key, value⟩) e.1 =
        ptbl.items e.1 := by
      intro e he
      have hne : e.1 ≠ i := fun heq => hi (heq ▸ List.mem_map_of_mem he)
      exact Function.update_of_ne hne _ _
    -- the slot is filled before the search, and the search does not see it
    rcases h.find key { ptbl with
        bufPool := bufPool
        items := Function.update ptbl.items i (some ⟨key, index key, value⟩) } rfl h.index_eq
      hother (h.le.trans hfuel) with ⟨e, he, rfl, hfound⟩ | ⟨hnone, hkey⟩
    · rw [h.query_of_mem he]
      simp only [hfound, Option.bind_eq_bind, Option.bind_some]
      exact ⟨_, rfl, s, bucket, h.put hpool hnum hi, rfl⟩
    · obtain ⟨lists₁, lists₂, h₁, h₂, hlists⟩ := h.lists.insert (n := index key) hi
        (fun k hk => hi (h.mem_used hk)) h.disjoint
      rw [query_of_notMem hkey]
      simp only [hnone, h₁, h₂, Option.bind_eq_bind, Option.bind_some]
      refine ⟨_, rfl, _, _, h.insert hpool hnum hi (by omega) hkey hlists, ?_⟩
      simp [content]

/-! ### Removing -/

/-- An item out of the lists and its slot back into the pool. -/
lemma Refines.drop (h : Refines ptbl capacity index (s₀ ++ e :: s₁) bucket) :
    ∃ ptbl' bucket', ptbl.drop (index e.2.1) e.1 = some ptbl' ∧
      Refines ptbl' capacity index (s₀ ++ s₁) bucket' := by
  have hin : e.1 ∈ bucket (index e.2.1) := (h.mem _ _).mpr ⟨e, by simp, rfl, rfl⟩
  obtain ⟨c, c', hc⟩ := List.append_of_mem hin
  have hlists := h.lists
  have hpool := h.pool
  have hnodup := h.nodup
  rw [List.map_append, List.map_cons] at hlists hpool hnodup
  obtain ⟨lists₁, lists₂, h₁, h₂, hrest⟩ := hlists.remove hc h.disjoint
  have hne : ∀ e' ∈ s₀ ++ s₁, e'.1 ≠ e.1 := by
    intro e' he' heq
    have hmid := (List.nodup_cons.mp (List.nodup_middle.mp hnodup)).1
    rw [← List.map_append] at hmid
    exact hmid (heq ▸ List.mem_map_of_mem he')
  have hothers : ∀ n j, j ∈ bucket n ∧ j ≠ e.1 ↔
      ∃ e' ∈ s₀ ++ s₁, e'.1 = j ∧ index e'.2.1 = n := by
    intro n j
    rw [h.mem]
    constructor
    · rintro ⟨⟨e', he', rfl, hn⟩, hje⟩
      refine ⟨e', ?_, rfl, hn⟩
      simp only [List.mem_append, List.mem_cons] at he' ⊢
      rcases he' with he' | rfl | he'
      · exact .inl he'
      · exact absurd rfl hje
      · exact .inr he'
    · rintro ⟨e', he', rfl, hn⟩
      refine ⟨⟨e', ?_, rfl, hn⟩, hne e' he'⟩
      simp only [List.mem_append, List.mem_cons] at he' ⊢
      tauto
  refine ⟨{ ptbl.put e.1 with lists := lists₂, itemNum := ptbl.itemNum - 1 },
    Function.update bucket (index e.2.1) (c ++ c'), by simp [IntHashTable.drop, h₁, h₂],
    h.capacity_eq, h.index_eq, ?_, h.poolNum, ?_, ?_, ?_, fun n j => ?_, fun e' he' => ?_, ?_⟩
  · simp only [h.itemNum, List.length_append, List.length_cons]
    omega
  · have hle := h.le
    rw [List.length_append, List.length_cons] at hle
    rw [List.length_append]
    omega
  · rw [List.map_append]
    exact hpool.put
  · rw [List.map_append]
    exact hrest
  · rw [← hothers n j]
    by_cases hn : n = index e.2.1
    · subst hn
      rw [Function.update_self, hc]
      have hmid : (c ++ e.1 :: c').Nodup := by
        rw [← hc]
        exact List.Nodup.of_map _ (h.lists.bucket _).nodup
      have hout := (List.nodup_cons.mp (List.nodup_middle.mp hmid)).1
      constructor
      · intro hj
        refine ⟨?_, fun heq => hout (heq ▸ hj)⟩
        simp only [List.mem_append, List.mem_cons] at hj ⊢
        tauto
      · rintro ⟨hj, hje⟩
        simp only [List.mem_append, List.mem_cons] at hj ⊢
        tauto
    · rw [Function.update_of_ne hn]
      exact ⟨fun hj => ⟨hj, fun heq => h.disjoint n hn j hj (heq ▸ hin)⟩, And.left⟩
  · simp only [IntHashTable.put, Function.update_of_ne (hne e' he')]
    refine h.items e' ?_
    simp only [List.mem_append, List.mem_cons] at he' ⊢
    tauto
  · have hkeyed := h.keyed
    rw [List.map_append, List.map_cons] at hkeyed
    rw [List.map_append]
    exact (List.nodup_cons.mp (List.nodup_middle.mp hkeyed)).2

lemma eraseP_content (hkeyed : ((s₀ ++ e :: s₁).map fun e => e.2.1).Nodup) :
    (content capacity (s₀ ++ e :: s₁)).remove e.2.1 = content capacity (s₀ ++ s₁) := by
  rw [List.map_append, List.map_cons] at hkeyed
  have hout := (List.nodup_cons.mp (List.nodup_middle.mp hkeyed)).1
  have hnot : ∀ p ∈ s₀.map Prod.snd, ¬ (p.1 == e.2.1) = true := by
    intro p hp hpe
    obtain ⟨e', he', rfl⟩ := List.mem_map.mp hp
    refine hout (List.mem_append_left _ (List.mem_map.mpr ⟨e', he', ?_⟩))
    exact beq_iff_eq.mp hpe
  simp only [HashTable.remove, content, List.map_append, List.map_cons]
  rw [List.eraseP_append_right _ hnot, List.eraseP_cons_of_pos (by simp)]

theorem intHashRemove_spec (key : Int32) {t : HashTable Int32 ν} (h : Models ptbl capacity index t)
    (hfuel : capacity ≤ fuel) :
    ∃ ptbl', intHashRemove ptbl fuel key =
        some (if (t.query key).isSome then 1 else -2, ptbl') ∧
      Models ptbl' capacity index (t.remove key) := by
  obtain ⟨s, bucket, h, rfl⟩ := h
  unfold intHashRemove
  rcases h.find key ptbl rfl h.index_eq (fun _ _ => rfl) (h.le.trans hfuel) with
    ⟨e, he, rfl, hfound⟩ | ⟨hnone, hkey⟩
  · have hquery := h.query_of_mem he
    obtain ⟨s₀, s₁, rfl⟩ := List.append_of_mem he
    obtain ⟨ptbl', bucket', hdrop, hrest⟩ := h.drop
    have hdrop' : ptbl.drop (ptbl.index e.2.1) (Node.listNode e.1).pdata = some ptbl' := by
      rw [h.index_eq]
      exact hdrop
    rw [hquery, eraseP_content h.keyed]
    simp only [hfound, hdrop', Option.bind_eq_bind, Option.bind_some]
    exact ⟨ptbl', rfl, s₀ ++ s₁, bucket', hrest, rfl⟩
  · have hsame : (content capacity s).remove key = content capacity s := by
      have hnot : ∀ p ∈ s.map Prod.snd, ¬ (p.1 == key) = true := by
        intro p hp hpe
        obtain ⟨e, he, rfl⟩ := List.mem_map.mp hp
        exact hkey (List.mem_map.mpr ⟨e, he, beq_iff_eq.mp hpe⟩)
      simp only [HashTable.remove, content, List.eraseP_of_forall_not hnot]
    rw [query_of_notMem hkey, hsame]
    simp only [hnone, Option.bind_eq_bind, Option.bind_some]
    exact ⟨ptbl, rfl, s, bucket, h, rfl⟩

end SteepSystem.IntHash
