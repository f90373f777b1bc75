import SteepSystem.RopProcessor.Model

/-!
One logon item. In a valid item the handle table lists the nodes of the tree, no more and no
less; adding a child keeps this, and so does cutting a node out.
-/

namespace SteepSystem.RopProcessor

open SteepSystem.Lib
open scoped List

namespace LogonItem

def nodes (it : LogonItem) : List ObjectNode := it.tree.root.nodes

def upctxCount (it : LogonItem) : ℕ := it.nodes.countP fun n => n.type == .icsupctx

/-- The handle table and the tree hold the same nodes, and each node has a buffer and a number
of its own. -/
structure Valid (it : LogonItem) : Prop where
  rooted : ∃ v c, it.tree.root = .node v c .nil
  table : it.phash.items ~ it.nodes.map ObjectNode.entry
  keyed : it.phash.Keyed
  addrs : (it.nodes.map ObjectNode.addr).Nodup
  count : it.tree.nodesNum = it.nodes.length

namespace Valid

variable {it : LogonItem} (h : it.Valid) {a k : ℕ} {n : ObjectNode}

include h

lemma nodes_pos : 0 < it.nodes.length := by
  obtain ⟨v, c, hr⟩ := h.rooted
  simp [nodes, hr]

/-- The node at an address of the tree is the only one there. -/
lemma countP_addr (hn : n ∈ it.nodes) : it.nodes.countP (fun m => m.addr == n.addr) = 1 := by
  have := List.count_eq_one_of_mem h.addrs (List.mem_map_of_mem hn)
  rwa [List.count, List.countP_map] at this

lemma eq_of_addr {m : ObjectNode} (hm : m ∈ it.nodes) (hn : n ∈ it.nodes)
    (heq : m.addr = n.addr) : m = n :=
  List.inj_on_of_nodup_map h.addrs hm hn heq

lemma nodeAt_eq (hn : n ∈ it.nodes) : it.tree.nodeAt n.addr = some n := by
  cases hf : it.tree.nodeAt n.addr with
  | none =>
    rw [SimpleTree.nodeAt, List.find?_eq_none] at hf
    exact absurd (beq_self_eq_true _) (hf n hn)
  | some m =>
    have hm := List.mem_of_find?_eq_some hf
    have ha := List.find?_some hf
    exact congrArg some (h.eq_of_addr hm hn (beq_iff_eq.mp ha))

/-- A handle is in the table when a node of the tree has it, and leads to that node. -/
theorem query_eq_some_iff :
    it.phash.query k = some a ↔ ∃ n ∈ it.nodes, n.handle = k ∧ n.addr = a := by
  rw [HashTable.query_eq_some_iff h.keyed, h.table.mem_iff, List.mem_map]
  simp [ObjectNode.entry]

lemma doomed_eq (hn : n ∈ it.nodes) :
    it.tree.doomed n.addr = n :: it.tree.root.descendants fun m => m.addr == n.addr := by
  obtain ⟨v, hv, hva, heq⟩ := Forest.subtreeAt_eq_cons (h.countP_addr hn)
  rw [h.eq_of_addr hv hn (beq_iff_eq.mp hva)] at heq
  exact heq

/-- **A child added.** The item stays valid when a node with a buffer and a number that no
other one has becomes the last child of one of its nodes. -/
theorem link (hn : n ∈ it.nodes) {x : ObjectNode} (haddr : ∀ m ∈ it.nodes, m.addr ≠ x.addr)
    (hhandle : it.phash.query x.handle = none) :
    Valid ⟨⟨it.phash.capacity, it.phash.items ++ [x.entry]⟩, simpleTreeAddChild it.tree n.addr x⟩ ∧
    (simpleTreeAddChild it.tree n.addr x).root.nodes ~ x :: it.nodes := by
  have hperm : (simpleTreeAddChild it.tree n.addr x).root.nodes ~ x :: it.nodes :=
    Forest.nodes_addLast (h.countP_addr hn)
  refine ⟨?_, hperm⟩
  constructor
  case rooted =>
    obtain ⟨v, c, hr⟩ := h.rooted
    simp only [simpleTreeAddChild, hr, Forest.addLast]
    split_ifs
    · exact ⟨_, _, rfl⟩
    · exact ⟨_, _, rfl⟩
  case table =>
    calc it.phash.items ++ [x.entry]
      _ ~ x.entry :: it.phash.items := List.perm_append_singleton _ _
      _ ~ (x :: it.nodes).map ObjectNode.entry := h.table.cons _
      _ ~ _ := (hperm.map _).symm
  case keyed =>
    rw [HashTable.query_eq_none_iff] at hhandle
    rw [HashTable.Keyed, List.map_append, List.nodup_append]
    refine ⟨h.keyed, by simp, ?_⟩
    rintro k hk k' hk' rfl
    rw [List.map_singleton, List.mem_singleton] at hk'
    have hk'' : k = x.handle := hk'
    exact hhandle (hk'' ▸ hk)
  case addrs =>
    refine (hperm.map ObjectNode.addr).nodup_iff.mpr ?_
    rw [List.map_cons, List.nodup_cons]
    refine ⟨fun hmem => ?_, h.addrs⟩
    obtain ⟨m, hm, hma⟩ := List.mem_map.mp hmem
    exact haddr m hm hma
  case count =>
    change it.tree.nodesNum + 1 = (simpleTreeAddChild it.tree n.addr x).root.nodes.length
    rw [hperm.length_eq, List.length_cons, h.count]

/-- **A node cut out.** Destroying a node other than the root, and removing the numbers of the
nodes that go from the table, leaves a valid item. -/
theorem cut (hroot : ∀ v, it.tree.root.rootValue = some v → v.addr ≠ a) :
    Valid ⟨(it.tree.doomed a).foldl (fun t n => t.remove n.entry.1) it.phash,
      simpleTreeDestroyNode it.tree a⟩ := by
  have hperm : it.nodes ~
      it.tree.doomed a ++ (simpleTreeDestroyNode it.tree a).root.nodes :=
    Forest.nodes_perm_remove _ _
  have htable : it.phash.items ~ (it.tree.doomed a).map ObjectNode.entry ++
      (simpleTreeDestroyNode it.tree a).root.nodes.map ObjectNode.entry :=
    h.table.trans (by simpa using hperm.map ObjectNode.entry)
  have hleft := HashTable.items_foldl_remove ObjectNode.entry _ h.keyed htable
  constructor
  case rooted =>
    obtain ⟨v, c, hr⟩ := h.rooted
    have hv : ¬ (v.addr == a) = true := by
      rw [beq_iff_eq]
      exact hroot v (by rw [hr]; rfl)
    simp only [simpleTreeDestroyNode, hr, Forest.remove, if_neg hv]
    exact ⟨v, _, rfl⟩
  case table => exact hleft
  case keyed =>
    have hkeys := (htable.map Prod.fst).nodup_iff.mp h.keyed
    rw [List.map_append] at hkeys
    exact (hleft.map Prod.fst).nodup_iff.mpr (List.nodup_append.mp hkeys).2.1
  case addrs =>
    have haddrs := (hperm.map ObjectNode.addr).nodup_iff.mp h.addrs
    rw [List.map_append] at haddrs
    exact (List.nodup_append.mp haddrs).2.1
  case count =>
    have := hperm.length_eq
    rw [List.length_append] at this
    change it.tree.nodesNum - _ = (simpleTreeDestroyNode it.tree a).root.nodes.length
    rw [h.count]
    omega

end Valid

/-- The item that a logon starts as. -/
lemma valid_first (capacity : ℕ) (x : ObjectNode) :
    Valid ⟨⟨capacity, [x.entry]⟩, simpleTreeSetRoot simpleTreeInit x⟩ where
  rooted := ⟨x, .nil, rfl⟩
  table := .refl _
  keyed := List.nodup_singleton _
  addrs := List.nodup_singleton _
  count := rfl

end LogonItem

end SteepSystem.RopProcessor
