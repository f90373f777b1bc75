import SteepSystem.RopProcessor.Live

/-!
One session and its logon map. Each operation is followed through its own session while the
live items of all others stay a fixed rest; what is tracked is that no slot dangles, and by how
much the upload-context counter is off.
-/

namespace SteepSystem.RopProcessor

open SteepSystem.Lib
open scoped List

variable {getDir : ℕ → String}

def Slot.items : Slot → List LogonItem
  | .null => []
  | .item it => [it]
  | .dangling => []

def Slot.upctxs (slot : Slot) : ℕ := (slot.items.map LogonItem.upctxCount).sum

namespace HandleData

/-- The live items of a session. -/
def items (s : HandleData) : List LogonItem :=
  (List.finRange 256).flatMap fun i => (s.plogmap i).items

/-- How many upload contexts are alive in a session. -/
def upctxs (s : HandleData) : ℕ := (s.items.map LogonItem.upctxCount).sum

/-- By how much the counter is above the number of live upload contexts. -/
def drift (s : HandleData) : ℤ := s.upctxRef - s.upctxs

def NoDangling (s : HandleData) : Prop := ∀ i, s.plogmap i ≠ .dangling

variable {s : HandleData} {i : Fin 256}

lemma items_init : init.items = [] := by
  unfold items
  rw [List.flatMap_eq_nil_iff]
  exact fun _ _ => rfl

lemma plogmap_setSlot (s : HandleData) (i : Fin 256) (slot : Slot) :
    (s.setSlot i slot).plogmap i = slot := Function.update_self ..

lemma plogmap_setSlot_of_ne {j : Fin 256} (h : j ≠ i) (s : HandleData) (slot : Slot) :
    (s.setSlot i slot).plogmap j = s.plogmap j := Function.update_of_ne h ..

lemma setSlot_self (h : s.plogmap i = .null) : s.setSlot i .null = s := by
  unfold setSlot
  rw [← h, Function.update_eq_self]

@[simp] lemma setSlot_setSlot (s : HandleData) (i : Fin 256) (slot slot' : Slot) :
    (s.setSlot i slot).setSlot i slot' = s.setSlot i slot' := by
  simp [setSlot]

/-- The items in the other slots are the same whatever one slot holds. -/
lemma exists_rest (s : HandleData) (i : Fin 256) :
    ∃ rest, s.items ~ (s.plogmap i).items ++ rest ∧
      ∀ slot, (s.setSlot i slot).items ~ slot.items ++ rest := by
  have hperm : List.finRange 256 ~ i :: (List.finRange 256).erase i :=
    List.perm_cons_erase (List.mem_finRange i)
  refine ⟨((List.finRange 256).erase i).flatMap fun j => (s.plogmap j).items, ?_, ?_⟩
  · exact hperm.flatMap_right _
  · intro slot
    calc (s.setSlot i slot).items
      _ ~ (i :: (List.finRange 256).erase i).flatMap fun j =>
            ((s.setSlot i slot).plogmap j).items := hperm.flatMap_right _
      _ = slot.items ++ ((List.finRange 256).erase i).flatMap fun j => (s.plogmap j).items := by
          rw [List.flatMap_cons, plogmap_setSlot]
          congr 1
          refine List.flatMap_congr fun j hj => ?_
          have hne : j ≠ i := ((List.nodup_finRange 256).mem_erase_iff.mp hj).1
          rw [plogmap_setSlot_of_ne hne]

lemma upctxs_setSlot (s : HandleData) (i : Fin 256) (slot : Slot) :
    (s.setSlot i slot).upctxs + (s.plogmap i).upctxs = s.upctxs + slot.upctxs := by
  obtain ⟨rest, hs, hset⟩ := s.exists_rest i
  have h1 := (hs.map LogonItem.upctxCount).sum_eq
  have h2 := ((hset slot).map LogonItem.upctxCount).sum_eq
  rw [List.map_append, List.sum_append] at h1 h2
  unfold upctxs Slot.upctxs
  omega

lemma NoDangling.setSlot (h : s.NoDangling) {slot : Slot} (hslot : slot ≠ .dangling) :
    (s.setSlot i slot).NoDangling := by
  intro j
  by_cases hj : j = i
  · subst hj
    rwa [plogmap_setSlot]
  · rw [plogmap_setSlot_of_ne hj]
    exact h j

end HandleData

variable {w : Globals} {s : HandleData} {rest : List LogonItem} {i : Fin 256} {it : LogonItem}

/-- An item in a slot, brought to the front of the live items. -/
lemma Coherent.front (h : Coherent getDir w (s.items ++ rest)) (hi : s.plogmap i = .item it) :
    ∃ rest', Coherent getDir w (it :: rest') ∧ ∀ slot : Slot,
      slot.items ++ rest' ~ (s.setSlot i slot).items ++ rest := by
  obtain ⟨others, hs, hset⟩ := s.exists_rest i
  refine ⟨others ++ rest, h.perm ?_, fun slot => ?_⟩
  · rw [hi] at hs
    exact (hs.append_right rest).trans (by simp [Slot.items])
  · rw [← List.append_assoc]
    exact ((hset slot).append_right rest).symm

/-- **A slot released.** Afterwards it is free, and if it held an item both pools have room. -/
theorem releaseSlot_spec (h : Coherent getDir w (s.items ++ rest)) (hs : s.NoDangling)
    (i : Fin 256) :
    ∃ w', releaseSlot getDir w s i = some (w', s.setSlot i .null) ∧
      Coherent getDir w' ((s.setSlot i .null).items ++ rest) ∧
      (s.plogmap i = .null → w' = w) ∧
      (s.plogmap i ≠ .null → w'.logitemAllocator.Room ∧ w'.handleAllocator.Room) := by
  unfold releaseSlot
  cases hi : s.plogmap i with
  | null =>
    rw [HandleData.setSlot_self hi]
    exact ⟨w, rfl, h, fun _ => rfl, fun hne => absurd rfl hne⟩
  | dangling => exact absurd hi (hs i)
  | item it =>
    obtain ⟨rest', hfront, hset⟩ := h.front hi
    obtain ⟨v, hv, -⟩ := (hfront.valid it (by simp)).dir_eq getDir
    obtain ⟨w', hw', hcoh, hitem, hnode, -⟩ := releaseObjnode_root hfront hv
    refine ⟨w', ?_, hcoh.perm (hset .null), by simp, fun _ => ⟨hitem, hnode⟩⟩
    simp [ropProcessorReleaseLogonItem, hv, hw']

/-- The slots released one after the other. -/
lemma releaseSlots_spec (ids : List (Fin 256)) :
    ∀ {w : Globals} {s : HandleData}, Coherent getDir w (s.items ++ rest) → s.NoDangling →
    ∃ w' s', ids.foldlM (fun ws i => releaseSlot getDir ws.1 ws.2 i) (w, s) = some (w', s') ∧
      Coherent getDir w' (s'.items ++ rest) ∧
      ∀ j, s'.plogmap j = if j ∈ ids then .null else s.plogmap j := by
  induction ids with
  | nil => exact fun h _ => ⟨_, _, rfl, h, fun j => by simp⟩
  | cons i ids ih =>
    intro w s h hs
    obtain ⟨w₁, hw₁, hcoh, -⟩ := releaseSlot_spec h hs i
    obtain ⟨w', s', hfold, hcoh', hslots⟩ := ih hcoh (hs.setSlot (by simp))
    refine ⟨w', s', ?_, hcoh', fun j => ?_⟩
    · rw [List.foldlM_cons, hw₁]
      exact hfold
    · rw [hslots j]
      by_cases hj : j = i
      · subst hj
        simp [HandleData.plogmap_setSlot]
      · simp [HandleData.plogmap_setSlot_of_ne hj, hj]

/-- **A map released.** No item of the session is left. -/
theorem releaseLogmap_spec (h : Coherent getDir w (s.items ++ rest)) (hs : s.NoDangling) :
    ∃ w', ropProcessorReleaseLogmap getDir w s = some w' ∧ Coherent getDir w' rest := by
  obtain ⟨w', s', hfold, hcoh, hslots⟩ := releaseSlots_spec (List.finRange 256) h hs
  have hempty : s'.items = [] := by
    unfold HandleData.items
    rw [List.flatMap_eq_nil_iff]
    intro j hj
    rw [hslots j, if_pos hj]
    rfl
  rw [hempty, List.nil_append] at hcoh
  refine ⟨_, by rw [ropProcessorReleaseLogmap, hfold]; rfl, ?_⟩
  exact ⟨hcoh.valid, hcoh.addrs, hcoh.refs, hcoh.capacity, hcoh.logitems, hcoh.handles⟩

lemma upctxCount_of_perm (it' : LogonItem) {x : ObjectNode} (h : it'.nodes ~ x :: it.nodes) :
    it'.upctxCount = it.upctxCount + if x.type = .icsupctx then 1 else 0 := by
  unfold LogonItem.upctxCount
  rw [h.countP_eq, List.countP_cons]
  by_cases hx : x.type = .icsupctx <;> simp [hx]

/-- A new parent is a node of the tree. -/
lemma parentOf_ok (hit : it.Valid) {parentHandle : ℤ} {ppparent : Option ℕ}
    (h : parentOf it parentHandle = .ok ppparent) : ∃ n ∈ it.nodes, ppparent = some n.addr := by
  obtain ⟨v, c, hr⟩ := hit.rooted
  simp only [parentOf, hr] at h
  split_ifs at h with hneg hlt
  · simp at hlt
  · cases hq : it.phash.query parentHandle.toNat with
    | none => simp [hq] at h
    | some a =>
      obtain ⟨n, hn, -, rfl⟩ := hit.query_eq_some_iff.mp hq
      simp only [hq, Except.ok.injEq] at h
      exact ⟨n, hn, h.symm⟩

/-- **A node linked in.** The table that already has the entry and the tree that gets the node
make a valid item again, and an upload context is counted. -/
theorem linkNode_spec (h : Coherent getDir w (s.items ++ rest)) (hs : s.NoDangling)
    (hi : s.plogmap i = .item it) {n x : ObjectNode} (hn : n ∈ it.nodes) {pool : LibBuffer}
    (hpool : libBufferGet w.handleAllocator = some pool) (hx : x.addr = w.nextAddr)
    (hhandle : it.phash.query x.handle = none) {s' : HandleData}
    (hs' : s' = linkNode s i it ⟨it.phash.capacity, it.phash.items ++ [x.entry]⟩ (some n.addr) x) :
    Coherent getDir { w with handleAllocator := pool, nextAddr := w.nextAddr + 1 }
      (s'.items ++ rest) ∧ s'.NoDangling ∧ s'.drift = s.drift := by
  obtain ⟨rest', hfront, hset⟩ := h.front hi
  have hit : it.Valid := hfront.valid it (by simp)
  have hfresh : ∀ m ∈ it.nodes, m.addr ≠ x.addr := by
    intro m hm
    have := hfront.addrs it (by simp) m hm
    omega
  obtain ⟨hvalid, hnodes⟩ := hit.link hn hfresh hhandle
  set it' : LogonItem :=
    ⟨⟨it.phash.capacity, it.phash.items ++ [x.entry]⟩, simpleTreeAddChild it.tree n.addr x⟩
  have hdir : it'.dir getDir = it.dir getDir := by
    unfold LogonItem.dir
    exact congrArg _ (Forest.rootValue_addLast _ _ _)
  have hcoh := (hfront.grow hpool hx hvalid hnodes hdir).perm (hset (.item it'))
  have hcount := s.upctxs_setSlot i (.item it')
  simp only [hi, Slot.upctxs, Slot.items, List.map_singleton, List.sum_singleton,
    upctxCount_of_perm it' hnodes] at hcount
  subst hs'
  unfold linkNode HandleData.drift
  by_cases htype : x.type = .icsupctx
  · rw [if_pos htype] at hcount ⊢
    refine ⟨hcoh, hs.setSlot (by simp), ?_⟩
    change s.upctxRef + 1 - ((s.setSlot i (.item it')).upctxs : ℤ) = _
    omega
  · rw [if_neg htype] at hcount ⊢
    refine ⟨hcoh, hs.setSlot (by simp), ?_⟩
    change s.upctxRef - ((s.setSlot i (.item it')).upctxs : ℤ) = _
    omega

/-- If the call comes to enter a node in the handle table, the table takes the entry: it has
room, and the number is not in it. -/
def AddFits (w : Globals) (s : HandleData) (i : Fin 256) (parentHandle : ℤ)
    (numbered grown : Bool) : Prop :=
  ∀ it pparent, s.plogmap i = .item it → it.tree.nodesNum ≤ maxHandleNum →
    parentOf it parentHandle = .ok (some pparent) → w.handleAllocator.Room → numbered → grown →
    it.phash.items.length < it.phash.capacity ∧ it.phash.query s.lastHandle = none

/-- **A handle added.** Whether it succeeds or fails, a fitting call leaves the session and the
shared tables in step. -/
theorem addObjectHandle_spec (h : Coherent getDir w (s.items ++ rest)) (hs : s.NoDangling)
    {parentHandle : ℤ} (type : ObjectType) (pobject : ℕ) {numbered grown : Bool}
    (hfits : AddFits w s i parentHandle numbered grown) :
    ∃ code w' s', ropProcessorAddObjectHandle w s i parentHandle type pobject numbered grown =
        some (code, w', s') ∧
      Coherent getDir w' (s'.items ++ rest) ∧ s'.NoDangling ∧ s'.drift = s.drift := by
  unfold ropProcessorAddObjectHandle
  cases hi : s.plogmap i with
  | null => exact ⟨-1, w, s, rfl, h, hs, rfl⟩
  | dangling => exact absurd hi (hs i)
  | item it =>
    by_cases hnum : it.tree.nodesNum > maxHandleNum
    · exact ⟨-3, w, s, if_pos hnum, h, hs, rfl⟩
    simp only [if_neg hnum]
    cases hparent : parentOf it parentHandle with
    | error code => exact ⟨code, w, s, rfl, h, hs, rfl⟩
    | ok ppparent =>
      cases hpool : libBufferGet w.handleAllocator with
      | none => exact ⟨-7, w, s, rfl, h, hs, rfl⟩
      | some pool =>
        have hroom : w.handleAllocator.Room ∧
            pool = { w.handleAllocator with allocatedNum := w.handleAllocator.allocatedNum + 1 } := by
          unfold libBufferGet at hpool
          split_ifs at hpool with hfull
          exact ⟨not_le.mp hfull, (Option.some.inj hpool).symm⟩
        have hroom' : w.handleAllocator.allocatedNum < w.handleAllocator.itemNum := hroom.1
        have hleak : Coherent getDir { w with handleAllocator := pool, nextAddr := w.nextAddr + 1 }
            (s.items ++ rest) := by
          refine h.leak (Nat.le_succ _) ?_ ?_ <;> rw [hroom.2] <;> simp only <;> omega
        obtain ⟨rest', hfront, -⟩ := h.front hi
        obtain ⟨n, hn, rfl⟩ := parentOf_ok (hfront.valid it (by simp)) hparent
        cases numbered with
        | false => exact ⟨-8, _, s, rfl, hleak, hs, rfl⟩
        | true =>
          simp only [if_true, enterNode]
          by_cases htakes : it.phash.items.length < it.phash.capacity ∧
              it.phash.query s.lastHandle = none
          · rw [HashTable.add_of_room htakes.1 htakes.2]
            refine ⟨_, _, _, if_pos rfl, ?_⟩
            -- The session that links the node in has given the number out already.
            exact linkNode_spec (s := { s with lastHandle := (s.lastHandle + 1) % 2 ^ 32 }) h hs hi
              hn hpool rfl htakes.2 rfl
          · rw [if_neg (HashTable.add_fst_ne_one htakes)]
            cases grown with
            | true => exact absurd (hfits it _ hi (by omega) hparent hroom.1 rfl rfl) htakes
            | false =>
              refine ⟨-8, _, _, rfl, ?_, hs, rfl⟩
              refine h.leak (Nat.le_succ _) ?_ ?_ <;> rw [hroom.2] <;>
                simp only [libBufferPut] <;> omega

lemma libBufferGet_of_room {b : LibBuffer} (h : b.Room) :
    libBufferGet b = some { b with allocatedNum := b.allocatedNum + 1 } := by
  rw [libBufferGet, if_neg (not_le.mpr h)]

lemma libBufferGet_eq_none {b : LibBuffer} (h : ¬ b.Room) : libBufferGet b = none := by
  rw [libBufferGet, if_pos (not_lt.mp h)]

lemma items_setSlot_of_null (hi : s.plogmap i = .null) (it : LogonItem) :
    (s.setSlot i (.item it)).items ~ it :: s.items := by
  obtain ⟨others, hs, hset⟩ := s.exists_rest i
  rw [hi] at hs
  exact (hset _).trans (hs.symm.cons it)

/-- A logon that is replaced has no upload context, and one that gets its item and its table
gets a handle too, below `2 ^ 31`. -/
structure CreateFits (w : Globals) (s : HandleData) (i : Fin 256) (hashed numbered : Bool) :
    Prop where
  replaced : ∀ it, s.plogmap i = .item it → it.upctxCount = 0
  handle : hashed → s.plogmap i ≠ .null ∨ w.logitemAllocator.Room →
    (s.plogmap i ≠ .null ∨ w.handleAllocator.Room) ∧ numbered ∧ s.lastHandle < 2 ^ 31

lemma drift_setSlot_null (hs : s.NoDangling)
    (hreplaced : ∀ it, s.plogmap i = .item it → it.upctxCount = 0) :
    (s.setSlot i .null).drift = s.drift := by
  have hcount := s.upctxs_setSlot i .null
  have hzero : (s.plogmap i).upctxs = 0 := by
    cases hi : s.plogmap i with
    | null => rfl
    | dangling => exact absurd hi (hs i)
    | item it =>
      rw [Slot.upctxs, Slot.items, List.map_singleton, List.sum_singleton]
      exact hreplaced it hi
  have hnull : Slot.null.upctxs = 0 := rfl
  unfold HandleData.drift
  change s.upctxRef - ((s.setSlot i .null).upctxs : ℤ) = _
  omega

/-- An item with the one node `x`. -/
def firstItem (x : ObjectNode) : LogonItem :=
  ⟨⟨hgrowingSize, [x.entry]⟩, simpleTreeSetRoot simpleTreeInit x⟩

/-- The first handle of an item is its root's. -/
lemma addObjectHandle_root (hi : s.plogmap i = .item ⟨.init hgrowingSize, simpleTreeInit⟩)
    (hroom : w.handleAllocator.Room) {plogon : ℕ} (grown : Bool) {x : ObjectNode}
    (hx : x = ⟨w.nextAddr, s.lastHandle, .logon, plogon⟩) :
    ropProcessorAddObjectHandle w s i (-1) .logon plogon true grown = some (asInt s.lastHandle,
      { w with
        handleAllocator :=
          { w.handleAllocator with allocatedNum := w.handleAllocator.allocatedNum + 1 }
        nextAddr := w.nextAddr + 1 },
      { s with lastHandle := (s.lastHandle + 1) % 2 ^ 32 }.setSlot i (.item (firstItem x))) := by
  have hadd : (HashTable.init hgrowingSize : HashTable ℕ ℕ).add s.lastHandle w.nextAddr =
      (1, ⟨hgrowingSize, [(s.lastHandle, w.nextAddr)]⟩) := rfl
  have hparent : parentOf ⟨.init hgrowingSize, simpleTreeInit⟩ (-1) = .ok none := rfl
  unfold ropProcessorAddObjectHandle
  simp only [hi, hparent, libBufferGet_of_room hroom, enterNode, hadd, if_true, hx]
  rfl

lemma HandleData.items_congr {s' : HandleData} (h : s.plogmap = s'.plogmap) :
    s.items = s'.items := by
  unfold HandleData.items
  rw [h]

/-- **A logon created.** Whether it succeeds or fails, a fitting call leaves the session and
the shared tables in step. -/
theorem createLogonItem_spec (h : Coherent getDir w (s.items ++ rest)) (hs : s.NoDangling)
    (plogon : ℕ) {hashed numbered : Bool} (grown : Bool) (hfits : CreateFits w s i hashed numbered) :
    ∃ code w' s', ropProcessorCreateLogonItem getDir w s i plogon hashed numbered grown =
        some (code, w', s') ∧
      Coherent getDir w' (s'.items ++ rest) ∧ s'.NoDangling ∧ s'.drift = s.drift := by
  obtain ⟨w₁, hrel, hcoh, hsame, hrooms⟩ := releaseSlot_spec h hs i
  have hdrift := drift_setSlot_null hs hfits.replaced
  have hs₁ : (s.setSlot i .null).NoDangling := hs.setSlot (by simp)
  unfold ropProcessorCreateLogonItem
  simp only [hrel]
  by_cases hitem : w₁.logitemAllocator.Room
  swap
  · rw [libBufferGet_eq_none hitem]
    exact ⟨-1, _, _, rfl, hcoh, hs₁, hdrift⟩
  rw [libBufferGet_of_room hitem]
  cases hashed with
  | false => exact ⟨-2, _, _, rfl, hcoh, hs₁, hdrift⟩
  | true =>
    have hoccupied : s.plogmap i ≠ .null ∨ w.logitemAllocator.Room := by
      by_cases hi : s.plogmap i = .null
      · exact .inr (hsame hi ▸ hitem)
      · exact .inl hi
    obtain ⟨hnode, rfl, hlast⟩ := hfits.handle rfl hoccupied
    have hnode₁ : w₁.handleAllocator.Room := by
      by_cases hi : s.plogmap i = .null
      · exact hsame hi ▸ hnode.resolve_left (not_not.mpr hi)
      · exact (hrooms hi).2
    have hcode : ¬ asInt s.lastHandle < 0 := by
      unfold asInt
      split_ifs
      omega
    -- The root is added while the slot holds an item with no node yet.
    set x : ObjectNode := ⟨w₁.nextAddr, s.lastHandle, .logon, plogon⟩ with hx
    set s₂ := (s.setSlot i .null).setSlot i (.item ⟨.init hgrowingSize, simpleTreeInit⟩) with hs₂
    have hadd := addObjectHandle_root (i := i) (s := s₂)
      (w := { w₁ with logitemAllocator :=
        { w₁.logitemAllocator with allocatedNum := w₁.logitemAllocator.allocatedNum + 1 } })
      (HandleData.plogmap_setSlot ..) hnode₁ grown hx
    simp only [if_true, hadd]
    set s₃ := { s₂ with lastHandle := (s₂.lastHandle + 1) % 2 ^ 32 }.setSlot i (.item (firstItem x))
      with hs₃
    have hslots : s₃.plogmap = ((s.setSlot i .null).setSlot i (.item (firstItem x))).plogmap := by
      rw [hs₃, hs₂]
      simp [HandleData.setSlot]
    have hitems := HandleData.items_congr hslots
    refine ⟨_, _, s₃, if_neg hcode, ?_, ?_, ?_⟩
    · rw [hitems]
      refine Coherent.perm (hcoh.first (x := x) (libBufferGet_of_room hitem)
        (libBufferGet_of_room hnode₁) rfl hgrowingSize) ?_
      have hperm := items_setSlot_of_null (HandleData.plogmap_setSlot s i .null) (firstItem x)
      exact hperm.symm.append_right rest
    · intro j
      rw [hslots]
      exact hs₁.setSlot (by simp) j
    · have hcount := (s.setSlot i .null).upctxs_setSlot i (.item (firstItem x))
      rw [HandleData.plogmap_setSlot] at hcount
      have hfirst : (Slot.item (firstItem x)).upctxs = 0 := rfl
      have hnull : Slot.null.upctxs = 0 := rfl
      have hupctxs : s₃.upctxs = (s.setSlot i .null).upctxs := by
        unfold HandleData.upctxs at hcount ⊢
        rw [hitems]
        omega
      rw [← hdrift]
      unfold HandleData.drift
      rw [hupctxs]
      rfl

/-- How many upload contexts are below a node. -/
def LogonItem.upctxsBelow (it : LogonItem) (a : ℕ) : ℕ :=
  (it.tree.root.descendants fun m => m.addr == a).countP fun m => m.type == .icsupctx

/-- What a release makes of the session: in the slot the item goes with its root, or loses the
node and everything below it; the other slots stay. -/
structure Released (s s' : HandleData) (i : Fin 256) (it : LogonItem) (n : ObjectNode) : Prop where
  other : ∀ j, j ≠ i → s'.plogmap j = s.plogmap j
  root : it.tree.root.rootValue = some n → s'.plogmap i = .null ∧
    it.nodes = n :: it.tree.root.descendants fun m => m.addr == n.addr
  inner : it.tree.root.rootValue ≠ some n → ∃ it', s'.plogmap i = .item it' ∧
    it'.tree.root = it.tree.root.remove (fun m => m.addr == n.addr) ∧
    it.nodes ~ n :: (it.tree.root.descendants fun m => m.addr == n.addr) ++ it'.nodes

/-- **A handle released.** The counter comes to be off by the upload contexts below the node. -/
theorem releaseObjectHandle_spec (h : Coherent getDir w (s.items ++ rest)) (hs : s.NoDangling)
    (hi : s.plogmap i = .item it) {n : ObjectNode} (hn : n ∈ it.nodes)
    (hlt : n.handle < 0x7FFFFFFF) :
    ∃ w' s', ropProcessorReleaseObjectHandle getDir w s i n.handle = some (w', s') ∧
      Coherent getDir w' (s'.items ++ rest) ∧ s'.NoDangling ∧
      s'.drift = s.drift + it.upctxsBelow n.addr ∧ Released s s' i it n := by
  obtain ⟨rest', hfront, hset⟩ := h.front hi
  have hit : it.Valid := hfront.valid it (by simp)
  have hquery : it.phash.query n.handle = some n.addr := hit.query_eq_some_iff.mpr ⟨n, hn, rfl, rfl⟩
  have hdoomed := hit.doomed_eq hn
  set below := it.tree.root.descendants fun m => m.addr == n.addr with hbelow
  set s₁ : HandleData := if n.type = .icsupctx then { s with upctxRef := s.upctxRef - 1 } else s
    with hs₁
  have hslots : s₁.plogmap = s.plogmap := by rw [hs₁]; split_ifs <;> rfl
  have hitems : ∀ slot, (s₁.setSlot i slot).items = (s.setSlot i slot).items := fun slot =>
    HandleData.items_congr (by rw [HandleData.setSlot, HandleData.setSlot, hslots])
  have hother : ∀ slot, ∀ j, j ≠ i → (s₁.setSlot i slot).plogmap j = s.plogmap j := by
    intro slot j hj
    rw [HandleData.plogmap_setSlot_of_ne hj, hslots]
  have hdangle : ∀ slot, slot ≠ .dangling → (s₁.setSlot i slot).NoDangling := by
    intro slot hslot
    refine HandleData.NoDangling.setSlot (fun j => ?_) hslot
    rw [hslots]
    exact hs j
  -- The counter follows the node itself; the tree loses what is below it as well.
  have hdrift : ∀ slot : Slot, slot.upctxs + (n :: below).countP (fun m => m.type == .icsupctx) =
      it.upctxCount → (s₁.setSlot i slot).drift = s.drift + it.upctxsBelow n.addr := by
    intro slot hslot
    have hcount := s.upctxs_setSlot i slot
    have hold : (s.plogmap i).upctxs = it.upctxCount := by
      rw [hi, Slot.upctxs, Slot.items, List.map_singleton, List.sum_singleton]
    have hctxs : (s₁.setSlot i slot).upctxs = (s.setSlot i slot).upctxs := by
      rw [HandleData.upctxs, hitems, HandleData.upctxs]
    have hcounter : (s₁.setSlot i slot).upctxRef =
        s.upctxRef - if n.type = .icsupctx then 1 else 0 := by
      rw [hs₁]
      split_ifs <;> simp [HandleData.setSlot]
    rw [List.countP_cons] at hslot
    unfold HandleData.drift LogonItem.upctxsBelow
    rw [hcounter, hctxs, ← hbelow]
    by_cases htype : n.type = .icsupctx
    · simp only [htype, beq_self_eq_true, if_true] at hslot ⊢
      omega
    · have htype' : (n.type == ObjectType.icsupctx) = false := by simpa using htype
      simp only [htype, htype', Bool.false_eq_true, if_false] at hslot ⊢
      omega
  unfold ropProcessorReleaseObjectHandle
  rw [if_neg (by omega)]
  simp only [hi, hquery, hit.nodeAt_eq hn, ← hs₁]
  obtain ⟨v, hv, hvmem, -, hall⟩ := hit.dir_eq getDir
  by_cases hroot : it.tree.root.rootValue = some n
  · obtain ⟨w', hrel, hcoh, -⟩ := releaseObjnode_root hfront hroot
    obtain rfl : v = n := Option.some.inj (hv.symm.trans hroot)
    rw [hrel]
    have hnodes : it.nodes = v :: below := hall.symm.trans hdoomed
    refine ⟨w', _, rfl, ?_, hdangle _ (by simp), hdrift _ ?_, hother _, fun _ => ⟨?_, hnodes⟩,
      fun hne => absurd hroot hne⟩
    · rw [hitems]
      exact hcoh.perm (hset .null)
    · rw [LogonItem.upctxCount, hnodes]
      exact Nat.zero_add _
    · exact HandleData.plogmap_setSlot ..
  · have hne : ∀ u, it.tree.root.rootValue = some u → u.addr ≠ n.addr := by
      intro u hu heq
      obtain rfl : v = u := Option.some.inj (hv.symm.trans hu)
      exact hroot (hit.eq_of_addr hvmem hn heq ▸ hu)
    obtain ⟨w', it', hrel, htree, hcoh, -⟩ := releaseObjnode_inner hfront hne
    rw [hrel]
    have hperm : it.nodes ~ n :: below ++ it'.nodes := by
      rw [← hdoomed, LogonItem.nodes, LogonItem.nodes, htree]
      exact Forest.nodes_perm_remove _ _
    refine ⟨w', _, rfl, ?_, hdangle _ (by simp), hdrift _ ?_, hother _, fun h => absurd h hroot,
      fun _ => ⟨it', HandleData.plogmap_setSlot .., htree, hperm⟩⟩
    · rw [hitems]
      exact hcoh.perm (hset (.item it'))
    · rw [Slot.upctxs, Slot.items, List.map_singleton, List.sum_singleton, LogonItem.upctxCount,
        LogonItem.upctxCount, hperm.countP_eq, List.countP_append]
      exact Nat.add_comm _ _

/-- A handle that stands for no node is ignored. -/
lemma releaseObjectHandle_ignored (h : Coherent getDir w (s.items ++ rest)) (hs : s.NoDangling)
    {k : ℕ} (hno : ∀ it, s.plogmap i = .item it → ∀ n ∈ it.nodes, n.handle = k →
      ¬ n.handle < 0x7FFFFFFF) :
    ropProcessorReleaseObjectHandle getDir w s i k = some (w, s) := by
  unfold ropProcessorReleaseObjectHandle
  split_ifs with hk
  · rfl
  cases hi : s.plogmap i with
  | null => rfl
  | dangling => exact absurd hi (hs i)
  | item it =>
    obtain ⟨rest', hfront, -⟩ := h.front hi
    cases hq : it.phash.query k with
    | none => simp only [hq]
    | some a =>
      obtain ⟨n, hn, hnk, -⟩ := (hfront.valid it (by simp)).query_eq_some_iff.mp hq
      exact absurd (by omega) (hno it hi n hn hnk)

end SteepSystem.RopProcessor
