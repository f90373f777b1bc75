import SteepSystem.DoubleLists.Operations
import SteepSystem.IntHash.Model
import SteepSystem.HashTable

/-!
How a table is laid out: which slots of the pool are in which list, and what is in them. The items
in the order of the list for iteration are those of an abstract table.
-/

namespace SteepSystem.IntHash

open SteepSystem.DoubleLists SteepSystem.Lib.Rings

/-! ### The pool -/

/-- The slots that are in use. -/
structure LibBuffer.Holds (mBuf : LibBuffer) (used : List ℕ) : Prop where
  allocatedNum : mBuf.allocatedNum = used.length
  nodup : (used ++ mBuf.freeList).Nodup
  below : ∀ i ∈ used ++ mBuf.freeList, i < mBuf.curHeapHead

variable {mBuf : LibBuffer} {used used' l l' c c' r s : List ℕ} {i n : ℕ}

lemma LibBuffer.Holds.perm (h : mBuf.Holds used) (hp : used.Perm used') : mBuf.Holds used' :=
  ⟨h.allocatedNum.trans hp.length_eq, (hp.append_right _).nodup_iff.mp h.nodup,
    fun i hi => h.below i ((hp.append_right _).mem_iff.mpr hi)⟩

/-- There is a slot, which was not in use. -/
lemma LibBuffer.Holds.get (h : mBuf.Holds used) (hroom : used.length < mBuf.itemNum) :
    ∃ i mBuf', libBufferGet mBuf = some (i, mBuf') ∧ mBuf'.Holds (used ++ [i]) ∧
      mBuf'.itemNum = mBuf.itemNum ∧ i ∉ used := by
  unfold libBufferGet
  have hnodup := h.nodup
  have hbelow := h.below
  cases hfree : mBuf.freeList with
  | nil =>
    rw [hfree, List.append_nil] at hnodup hbelow
    have halloc := h.allocatedNum
    simp only
    rw [if_neg (by omega)]
    have hnew : mBuf.curHeapHead ∉ used := fun hmem => absurd (hbelow _ hmem) (lt_irrefl _)
    refine ⟨_, _, rfl, ⟨by simp [halloc], ?_, fun i hi => ?_⟩, rfl, hnew⟩
    · rw [List.append_nil]
      exact List.nodup_append_comm.mp (List.nodup_cons.mpr ⟨hnew, hnodup⟩)
    · rw [List.append_nil, List.mem_append, List.mem_singleton] at hi
      rcases hi with hi | rfl
      · exact Nat.lt_succ_of_lt (hbelow i hi)
      · exact Nat.lt_succ_self _
  | cons i rest =>
    have hsplit : used ++ mBuf.freeList = (used ++ [i]) ++ rest := by simp [hfree]
    rw [hsplit] at hnodup hbelow
    refine ⟨i, _, rfl, ⟨by simp [h.allocatedNum], hnodup, hbelow⟩, rfl, fun hmem => ?_⟩
    have hleft := (List.nodup_append.mp hnodup).1
    exact (List.nodup_append.mp hleft).2.2 i hmem i List.mem_cons_self rfl

lemma LibBuffer.Holds.put (h : mBuf.Holds (l ++ i :: l')) :
    (libBufferPut mBuf i).Holds (l ++ l') := by
  have hperm : (l ++ i :: l' ++ mBuf.freeList).Perm (l ++ l' ++ i :: mBuf.freeList) := by
    rw [List.append_assoc, List.cons_append]
    refine List.perm_middle.trans ?_
    rw [← List.append_assoc]
    exact List.perm_middle.symm
  refine ⟨?_, hperm.nodup_iff.mp h.nodup, fun j hj => h.below j (hperm.mem_iff.mpr hj)⟩
  have halloc := h.allocatedNum
  rw [List.length_append, List.length_cons] at halloc
  rw [List.length_append]
  simp only [libBufferPut]
  omega

/-! ### The lists -/

/-- The slots in the list for iteration and in each bucket. -/
structure Lists (lists : Memory Node ListName) (iter : List ℕ) (bucket : ℕ → List ℕ) : Prop where
  iter : lists.Represents .iterList (iter.map .iterNode)
  bucket : ∀ n, lists.Represents (.hashMap n) ((bucket n).map .listNode)

variable {lists lists' : Memory Node ListName} {iter : List ℕ} {bucket : ℕ → List ℕ}

lemma iterNode_injective : Function.Injective Node.iterNode := fun _ _ h => Node.iterNode.inj h

lemma listNode_injective : Function.Injective Node.listNode := fun _ _ h => Node.listNode.inj h

@[simp] lemma iterNode_mem : Node.iterNode i ∈ l.map Node.iterNode ↔ i ∈ l :=
  List.mem_map_of_injective iterNode_injective

@[simp] lemma listNode_mem : Node.listNode i ∈ l.map Node.listNode ↔ i ∈ l :=
  List.mem_map_of_injective listNode_injective

lemma Lists.changeBucket (h : Lists lists iter bucket)
    (hr : lists'.Represents (.hashMap n) (r.map .listNode))
    (ht : lists.Touches lists' (.hashMap n) (s.map .listNode))
    (hs : ∀ k ≠ n, ∀ i ∈ bucket k, i ∉ s) :
    Lists lists' iter (Function.update bucket n r) := by
  refine ⟨h.iter.frame ht (by simp) ?_, fun k => ?_⟩
  · intro v hv hmem
    obtain ⟨i, -, rfl⟩ := List.mem_map.mp hv
    simp at hmem
  · by_cases hk : k = n
    · subst hk
      rw [Function.update_self]
      exact hr
    · rw [Function.update_of_ne hk]
      refine (h.bucket k).frame ht (by simpa using hk) fun v hv => ?_
      obtain ⟨i, hi, rfl⟩ := List.mem_map.mp hv
      simpa using hs k hk i hi

lemma Lists.changeIter (h : Lists lists iter bucket)
    (hr : lists'.Represents .iterList (r.map .iterNode))
    (ht : lists.Touches lists' .iterList (s.map .iterNode)) : Lists lists' r bucket := by
  refine ⟨hr, fun k => (h.bucket k).frame ht (by simp) fun v hv hmem => ?_⟩
  obtain ⟨i, -, rfl⟩ := List.mem_map.mp hv
  simp at hmem

/-- A slot put in a bucket and at the end of the list for iteration. -/
lemma Lists.insert (h : Lists lists iter bucket) (hi : i ∉ iter) (hb : ∀ k, i ∉ bucket k)
    (hdisj : ∀ k ≠ n, ∀ j ∈ bucket k, j ∉ bucket n) :
    ∃ lists₁ lists₂, doubleListInsertAsHead lists (.hashMap n) (.listNode i) = some lists₁ ∧
      doubleListAppendAsTail lists₁ .iterList (.iterNode i) = some lists₂ ∧
      Lists lists₂ (iter ++ [i]) (Function.update bucket n (i :: bucket n)) := by
  obtain ⟨lists₁, h₁, hr₁, ht₁⟩ := insertAsHead_spec (h.bucket n) (n := .listNode i)
    (by simpa using hb n)
  have hbucket : Lists lists₁ iter (Function.update bucket n (i :: bucket n)) := by
    refine h.changeBucket (s := i :: bucket n) hr₁ ht₁ fun k hk j hj hmem => ?_
    rcases List.mem_cons.mp hmem with rfl | hmem
    · exact hb k hj
    · exact hdisj k hk j hj hmem
  obtain ⟨lists₂, h₂, hr₂, ht₂⟩ := appendAsTail_spec hbucket.iter (n := .iterNode i)
    (by simpa using hi)
  refine ⟨lists₁, lists₂, h₁, h₂, hbucket.changeIter (s := i :: iter) ?_ ht₂⟩
  rw [List.map_append]
  exact hr₂

/-- A slot taken out of both. -/
lemma Lists.remove (h : Lists lists (l ++ i :: l') bucket) (hb : bucket n = c ++ i :: c')
    (hdisj : ∀ k ≠ n, ∀ j ∈ bucket k, j ∉ bucket n) :
    ∃ lists₁ lists₂, doubleListRemove lists (.hashMap n) (.listNode i) = some lists₁ ∧
      doubleListRemove lists₁ .iterList (.iterNode i) = some lists₂ ∧
      Lists lists₂ (l ++ l') (Function.update bucket n (c ++ c')) := by
  have hn := h.bucket n
  rw [hb, List.map_append, List.map_cons] at hn
  obtain ⟨lists₁, h₁, hr₁, ht₁⟩ := remove_spec hn
  have hbucket : Lists lists₁ (l ++ i :: l') (Function.update bucket n (c ++ c')) := by
    rw [← List.map_append] at hr₁
    rw [← List.map_cons, ← List.map_append, ← hb] at ht₁
    exact h.changeBucket hr₁ ht₁ hdisj
  have hiter := hbucket.iter
  rw [List.map_append, List.map_cons] at hiter
  obtain ⟨lists₂, h₂, hr₂, ht₂⟩ := remove_spec hiter
  refine ⟨lists₁, lists₂, h₁, h₂, hbucket.changeIter (s := l ++ i :: l') ?_ ?_⟩
  · rw [List.map_append]
    exact hr₂
  · rw [List.map_append, List.map_cons]
    exact ht₂

/-! ### The items -/

/-- Each item is in its slot and in the bucket of its key. `s` has the slots, keys and values in the
order of the list for iteration. -/
structure Refines {ν : Type} (ptbl : IntHashTable ν) (capacity : ℕ) (index : Int32 → ℕ)
    (s : List (ℕ × Int32 × ν)) (bucket : ℕ → List ℕ) : Prop where
  capacity_eq : ptbl.capacity = capacity
  index_eq : ptbl.index = index
  itemNum : ptbl.itemNum = s.length
  poolNum : ptbl.bufPool.itemNum = capacity
  le : s.length ≤ capacity
  pool : ptbl.bufPool.Holds (s.map Prod.fst)
  lists : Lists ptbl.lists (s.map Prod.fst) bucket
  mem : ∀ n i, i ∈ bucket n ↔ ∃ e ∈ s, e.1 = i ∧ index e.2.1 = n
  items : ∀ e ∈ s, ptbl.items e.1 = some ⟨e.2.1, index e.2.1, e.2.2⟩
  keyed : (s.map fun e => e.2.1).Nodup

variable {ν : Type} {ptbl : IntHashTable ν} {capacity : ℕ} {index : Int32 → ℕ}
  {s₀ s₁ : List (ℕ × Int32 × ν)} {e : ℕ × Int32 × ν} {key : Int32} {value : ν} {fuel : ℕ}

/-- The abstract table. -/
def content (capacity : ℕ) (s : List (ℕ × Int32 × ν)) : HashTable Int32 ν :=
  ⟨capacity, s.map Prod.snd⟩

lemma Refines.nodup {s : List (ℕ × Int32 × ν)} (h : Refines ptbl capacity index s bucket) :
    (s.map Prod.fst).Nodup := (List.nodup_append.mp h.pool.nodup).1

lemma Refines.content_keyed {s : List (ℕ × Int32 × ν)}
    (h : Refines ptbl capacity index s bucket) : (content capacity s).Keyed := by
  have hkeyed := h.keyed
  rw [HashTable.Keyed, content, List.map_map]
  exact hkeyed

/-- A slot is in one bucket. -/
lemma Refines.disjoint {s : List (ℕ × Int32 × ν)} (h : Refines ptbl capacity index s bucket) :
    ∀ k ≠ n, ∀ j ∈ bucket k, j ∉ bucket n := by
  intro k hk j hj hj'
  obtain ⟨e, he, hej, hek⟩ := (h.mem k j).mp hj
  obtain ⟨e', he', hej', hen⟩ := (h.mem n j).mp hj'
  have hsame : e = e' := List.inj_on_of_nodup_map h.nodup he he' (hej.trans hej'.symm)
  exact hk (by rw [← hek, hsame, hen])

/-! ### The search -/

/-- What a search of some slots comes to: the node of one with the key, or there is none. -/
def Finds (ptbl : IntHashTable ν) (key : Int32) (l : List ℕ) (r : Option (Option Node)) : Prop :=
  (∃ i ∈ l, r = some (some (.listNode i)) ∧
    (ptbl.items i).map IntHashItem.hashKey = some key) ∨
  r = some none ∧ ∀ i ∈ l, (ptbl.items i).map IntHashItem.hashKey ≠ some key

/-- One slot is looked at, and behind it the others. -/
lemma Finds.cons {item : IntHashItem ν} {r : Option (Option Node)}
    (hitem : ptbl.items i = some item) (h : Finds ptbl key l r) :
    Finds ptbl key (i :: l) (if key = item.hashKey then some (some (.listNode i)) else r) := by
  by_cases hkey : key = item.hashKey
  · rw [if_pos hkey]
    exact .inl ⟨i, List.mem_cons_self, rfl, by rw [hitem, hkey]; rfl⟩
  · rw [if_neg hkey]
    have hi : (ptbl.items i).map IntHashItem.hashKey ≠ some key := by
      rw [hitem]
      exact fun heq => hkey (Option.some.inj heq).symm
    rcases h with ⟨j, hj, hfound, hjk⟩ | ⟨hnone, hall⟩
    · exact .inl ⟨j, List.mem_cons_of_mem i hj, hfound, hjk⟩
    · exact .inr ⟨hnone, List.forall_mem_cons.mpr ⟨hi, hall⟩⟩

/-- From a node of a bucket to its head. -/
lemma findLoop_spec (key : Int32) {phead a : Node}
    (hpath : Path ptbl.lists.links a (l.map .listNode) phead)
    (hhead : phead ∉ l.map Node.listNode) (hitems : ∀ i ∈ l, (ptbl.items i).isSome)
    (hfuel : l.length < fuel) :
    Finds ptbl key l (findLoop ptbl key phead fuel (ptbl.lists.links.next a)) := by
  obtain ⟨fuel, rfl⟩ := Nat.exists_eq_add_one_of_ne_zero (by omega : fuel ≠ 0)
  induction l generalizing a fuel with
  | nil =>
    rw [hpath.1, findLoop, if_pos rfl]
    exact .inr ⟨rfl, by simp⟩
  | cons j l ih =>
    rw [List.map_cons, List.mem_cons, not_or] at hhead
    rw [List.forall_mem_cons] at hitems
    rw [List.length_cons] at hfuel
    obtain ⟨item, hitem⟩ := Option.isSome_iff_exists.mp hitems.1
    obtain ⟨fuel, rfl⟩ := Nat.exists_eq_add_one_of_ne_zero (by omega : fuel ≠ 0)
    have hpdata : ptbl.items (Node.listNode j).pdata = some item := hitem
    rw [hpath.1.1, findLoop, if_neg fun heq => hhead.1 (Option.some.inj heq).symm]
    simp only [Option.bind_eq_bind, Option.bind_some, hpdata]
    exact Finds.cons hitem (ih hpath.2 hhead.2 hitems.2 fuel (by omega))

lemma findNode_spec (key : Int32)
    (hrep : ptbl.lists.Represents (.hashMap (ptbl.index key)) (l.map .listNode))
    (hitems : ∀ i ∈ l, (ptbl.items i).isSome) (hfuel : l.length < fuel + 1) :
    Finds ptbl key l (findNode ptbl fuel key) := by
  unfold findNode
  rw [hrep.phead]
  cases l with
  | nil => exact .inr ⟨rfl, by simp⟩
  | cons j l =>
    rw [List.forall_mem_cons] at hitems
    obtain ⟨item, hitem⟩ := Option.isSome_iff_exists.mp hitems.1
    have hpdata : ptbl.items (Node.listNode j).pdata = some item := hitem
    simp only [List.map_cons, List.head?_cons, Option.bind_eq_bind, Option.bind_some, hpdata]
    refine Finds.cons hitem (findLoop_spec key hrep.ring ?_ hitems.2 (by simpa using hfuel))
    exact (List.nodup_cons.mp hrep.nodup).1

end SteepSystem.IntHash
