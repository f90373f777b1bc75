import SteepSystem.RopProcessor.Item

/-!
The live items of all sessions against what the sessions share: the counts of logons on each
directory, the pools, and the addresses given out so far. Releasing an item, releasing one of
its nodes and putting a new item in keep the two in step.
-/

namespace SteepSystem.RopProcessor

open SteepSystem.Lib
open scoped List

variable {getDir : ℕ → String}

/-- The directory of the mailbox that the item's root is a logon on. -/
def LogonItem.dir (getDir : ℕ → String) (it : LogonItem) : Option String :=
  it.tree.root.rootValue.map fun n => getDir n.pobject

def LibBuffer.Room (b : LibBuffer) : Prop := b.allocatedNum < b.itemNum

instance (b : LibBuffer) : Decidable b.Room := inferInstanceAs (Decidable (_ < _))

/-- The shared tables and pools agree with the live items. -/
structure Coherent (getDir : ℕ → String) (w : Globals) (items : List LogonItem) : Prop where
  valid : ∀ it ∈ items, it.Valid
  addrs : ∀ it ∈ items, ∀ n ∈ it.nodes, n.addr < w.nextAddr
  refs : w.logonHash.Counts (items.filterMap (LogonItem.dir getDir))
  capacity : w.logonHash.capacity = w.logitemAllocator.itemNum
  logitems : items.length ≤ w.logitemAllocator.allocatedNum ∧
    w.logitemAllocator.allocatedNum ≤ w.logitemAllocator.itemNum
  handles : (items.map fun it => it.nodes.length).sum ≤ w.handleAllocator.allocatedNum ∧
    w.handleAllocator.allocatedNum ≤ w.handleAllocator.itemNum

variable {w w' : Globals} {it : LogonItem} {items items' rest : List LogonItem}

lemma Coherent.perm (h : Coherent getDir w items) (hp : items ~ items') :
    Coherent getDir w items' where
  valid it hit := h.valid it (hp.mem_iff.mpr hit)
  addrs it hit := h.addrs it (hp.mem_iff.mpr hit)
  refs := h.refs.perm (hp.filterMap _)
  capacity := h.capacity
  logitems := hp.length_eq ▸ h.logitems
  handles := (hp.map fun it => it.nodes.length).sum_eq ▸ h.handles

lemma LogonItem.Valid.dir_eq (getDir : ℕ → String) (h : it.Valid) :
    ∃ v, it.tree.root.rootValue = some v ∧ v ∈ it.nodes ∧
      LogonItem.dir getDir it = some (getDir v.pobject) ∧ it.tree.doomed v.addr = it.nodes := by
  obtain ⟨v, c, hr⟩ := h.rooted
  refine ⟨v, by rw [hr]; rfl, by simp [nodes, hr], by rw [dir, hr]; rfl, ?_⟩
  simp [SimpleTree.doomed, nodes, hr, Forest.subtreeAt]

/-- **The root released.** The logon is taken off its directory's count, and the item and its
nodes go back to their pools. -/
theorem releaseObjnode_root (h : Coherent getDir w (it :: rest)) {v : ObjectNode}
    (hv : it.tree.root.rootValue = some v) :
    ∃ w', ropProcessorReleaseObjnode getDir w it v.addr = some (w', none) ∧
      Coherent getDir w' rest ∧ w'.logitemAllocator.Room ∧ w'.handleAllocator.Room ∧
      w'.logmapAllocator = w.logmapAllocator := by
  have hit : it.Valid := h.valid it (by simp)
  obtain ⟨v', hv', -, hdir, hdoomed⟩ := hit.dir_eq getDir
  obtain rfl : v = v' := Option.some.inj (hv.symm.trans hv')
  have hrefs := h.refs
  rw [List.filterMap_cons_some hdir] at hrefs
  obtain ⟨hquery, hcounts⟩ := hrefs.tail
  have hpos := hit.nodes_pos
  have hlog := h.logitems
  have hhan := h.handles
  rw [List.length_cons] at hlog
  rw [List.map_cons, List.sum_cons] at hhan
  simp only [ropProcessorReleaseObjnode, hv, Option.filter_some, beq_self_eq_true, if_true,
    releaseLogonRef, hquery, Option.map_some, hdoomed]
  refine ⟨_, rfl, ⟨?_, ?_, hcounts, ?_, ?_, ?_⟩, ?_, ?_, rfl⟩
  · exact fun it' hit' => h.valid it' (by simp [hit'])
  · exact fun it' hit' => h.addrs it' (by simp [hit'])
  · simp only [libBufferPut]
    rw [← h.capacity]
    split_ifs <;> rfl
  · simp only [libBufferPut]
    omega
  · simp only [libBufferPut]
    omega
  · simp only [libBufferPut, LibBuffer.Room]
    omega
  · simp only [libBufferPut, LibBuffer.Room]
    omega

/-- **Another node released.** The tree loses the node and what is below it, and the table loses
their numbers. -/
theorem releaseObjnode_inner (h : Coherent getDir w (it :: rest)) {a : ℕ}
    (hroot : ∀ v, it.tree.root.rootValue = some v → v.addr ≠ a) :
    ∃ w' it', ropProcessorReleaseObjnode getDir w it a = some (w', some it') ∧
      it'.tree.root = it.tree.root.remove (fun m => m.addr == a) ∧
      Coherent getDir w' (it' :: rest) ∧ w'.logmapAllocator = w.logmapAllocator := by
  have hit : it.Valid := h.valid it (by simp)
  have hcut := hit.cut hroot
  have hperm : it.nodes ~ it.tree.doomed a ++
      (simpleTreeDestroyNode it.tree a).root.nodes := Forest.nodes_perm_remove _ _
  have hfilter : it.tree.root.rootValue.filter (fun m => m.addr == a) = none := by
    rw [Option.filter_eq_none_iff]
    exact fun v hv hva => hroot v hv (beq_iff_eq.mp hva)
  have hdir : LogonItem.dir getDir ⟨(it.tree.doomed a).foldl
      (fun t n => t.remove n.entry.1) it.phash, simpleTreeDestroyNode it.tree a⟩ =
      it.dir getDir := by
    unfold LogonItem.dir simpleTreeDestroyNode
    rw [Forest.rootValue_remove]
    exact fun v hv hva => hroot v hv (beq_iff_eq.mp hva)
  have hhan := h.handles
  rw [List.map_cons, List.sum_cons, hperm.length_eq, List.length_append] at hhan
  simp only [ropProcessorReleaseObjnode, hfilter]
  refine ⟨_, _, rfl, rfl, ⟨?_, ?_, ?_, h.capacity, h.logitems, ?_⟩, rfl⟩
  · intro it' hit'
    rcases List.mem_cons.mp hit' with rfl | hit'
    · exact hcut
    · exact h.valid it' (by simp [hit'])
  · intro it' hit' m hm
    rcases List.mem_cons.mp hit' with rfl | hit'
    · exact h.addrs it (by simp) m (hperm.mem_iff.mpr (List.mem_append_right _ hm))
    · exact h.addrs it' (by simp [hit']) m hm
  · have := h.refs
    rw [List.filterMap_cons] at this ⊢
    rwa [hdir]
  · rw [List.map_cons, List.sum_cons]
    simp only [libBufferPut, LogonItem.nodes]
    simp only [LogonItem.nodes] at hhan
    omega

/-- Addresses may be given out, and buffers taken, that no live node has. -/
lemma Coherent.leak (h : Coherent getDir w items) {pool : LibBuffer} {next : ℕ}
    (hnext : w.nextAddr ≤ next) (htaken : w.handleAllocator.allocatedNum ≤ pool.allocatedNum)
    (hpool : pool.allocatedNum ≤ pool.itemNum) :
    Coherent getDir { w with handleAllocator := pool, nextAddr := next } items where
  valid := h.valid
  addrs it hit n hn := (h.addrs it hit n hn).trans_le hnext
  refs := h.refs
  capacity := h.capacity
  logitems := h.logitems
  handles := ⟨h.handles.1.trans htaken, hpool⟩

/-- An item replaced by one with a node more on the same root. -/
lemma Coherent.grow (h : Coherent getDir w (it :: rest)) {pool : LibBuffer} {x : ObjectNode}
    {it' : LogonItem} (hpool : libBufferGet w.handleAllocator = some pool)
    (hx : x.addr = w.nextAddr) (hvalid : it'.Valid) (hnodes : it'.nodes ~ x :: it.nodes)
    (hdir : it'.dir getDir = it.dir getDir) :
    Coherent getDir { w with handleAllocator := pool, nextAddr := w.nextAddr + 1 }
      (it' :: rest) := by
  unfold libBufferGet at hpool
  split_ifs at hpool with hroom
  cases hpool
  have hhan := h.handles
  rw [List.map_cons, List.sum_cons] at hhan
  refine ⟨?_, ?_, ?_, h.capacity, h.logitems, ?_⟩
  · intro i hi
    rcases List.mem_cons.mp hi with rfl | hi
    · exact hvalid
    · exact h.valid i (by simp [hi])
  · intro i hi m hm
    rcases List.mem_cons.mp hi with rfl | hi
    · rcases List.mem_cons.mp (hnodes.mem_iff.mp hm) with rfl | hm
      · simp [hx]
      · exact (h.addrs it (by simp) m hm).trans (Nat.lt_succ_self _)
    · exact (h.addrs i (by simp [hi]) m hm).trans (Nat.lt_succ_self _)
  · have := h.refs
    rw [List.filterMap_cons] at this ⊢
    rwa [hdir]
  · rw [List.map_cons, List.sum_cons, hnodes.length_eq, List.length_cons]
    simp only
    omega

/-- **A new logon.** An item with the one node `x` as its root, its buffers taken from the pools
and its directory counted. -/
theorem Coherent.first (h : Coherent getDir w items) {itemPool nodePool : LibBuffer}
    {x : ObjectNode} (hitem : libBufferGet w.logitemAllocator = some itemPool)
    (hnode : libBufferGet w.handleAllocator = some nodePool) (hx : x.addr = w.nextAddr)
    (capacity : ℕ) :
    Coherent getDir
      (addLogonRef getDir { w with
        logitemAllocator := itemPool, handleAllocator := nodePool, nextAddr := w.nextAddr + 1 }
        x.pobject)
      (⟨⟨capacity, [x.entry]⟩, simpleTreeSetRoot simpleTreeInit x⟩ :: items) := by
  unfold libBufferGet at hitem hnode
  split_ifs at hitem hnode with hitem' hnode'
  cases hitem
  cases hnode
  have hlog := h.logitems
  have hhan := h.handles
  have hvalid := LogonItem.valid_first capacity x
  have hdirs : (items.filterMap (LogonItem.dir getDir)).length < w.logonHash.capacity := by
    have := List.length_filterMap_le (LogonItem.dir getDir) items
    rw [h.capacity]
    omega
  refine ⟨?_, ?_, ?_, ?_, ?_, ?_⟩
  · intro i hi
    rcases List.mem_cons.mp hi with rfl | hi
    · exact hvalid
    · exact h.valid i hi
  · intro i hi m hm
    rcases List.mem_cons.mp hi with rfl | hi
    · rw [List.mem_singleton.mp hm, hx]
      exact Nat.lt_succ_self _
    · exact (h.addrs i hi m hm).trans (Nat.lt_succ_self _)
  · have := h.refs.cons hdirs (getDir x.pobject)
    have hdir : LogonItem.dir getDir ⟨⟨capacity, [x.entry]⟩,
        simpleTreeSetRoot simpleTreeInit x⟩ = some (getDir x.pobject) := rfl
    rwa [List.filterMap_cons_some hdir]
  · simp only [addLogonRef]
    rw [← h.capacity]
    cases w.logonHash.query (getDir x.pobject) with
    | none => simp only [HashTable.add]; split_ifs <;> rfl
    | some ref => rfl
  · simp only [addLogonRef, List.length_cons]
    omega
  · simp only [addLogonRef, List.map_cons, List.sum_cons]
    simp only [LogonItem.nodes, simpleTreeSetRoot, simpleTreeInit, if_true, Forest.nodes_node,
      Forest.nodes_nil, List.append_nil, List.length_singleton]
    simp only [LogonItem.nodes] at hhan
    omega

end SteepSystem.RopProcessor
