import SteepSystem.IntHash.Operations

/-!
Iterations over a table. The items that an iteration has kept are at the front of the list, behind
them are those it has not come to, and the node it is at is the first of the latter.
-/

namespace SteepSystem.IntHash

open SteepSystem.DoubleLists

variable {ν : Type} {ptbl : IntHashTable ν} {piter : IntHashIter} {capacity fuel p : ℕ}
  {index : Int32 → ℕ} {s kept rest : List (ℕ × Int32 × ν)} {bucket : ℕ → List ℕ}
  {e : ℕ × Int32 × ν} {gone : Int32 → Bool}

/-- The nodes of some items in the list for iteration. -/
def iterNodes (s : List (ℕ × Int32 × ν)) : List Node := (s.map Prod.fst).map .iterNode

@[simp] lemma iterNodes_append (s s' : List (ℕ × Int32 × ν)) :
    iterNodes (s ++ s') = iterNodes s ++ iterNodes s' := by simp [iterNodes]

@[simp] lemma iterNodes_cons (e : ℕ × Int32 × ν) (s : List (ℕ × Int32 × ν)) :
    iterNodes (e :: s) = .iterNode e.1 :: iterNodes s := rfl

/-- Between two rounds of an iteration that began with the iterator's position at `p`. -/
structure Underway (ptbl : IntHashTable ν) (piter : IntHashIter) (capacity : ℕ)
    (index : Int32 → ℕ) (kept rest : List (ℕ × Int32 × ν)) (bucket : ℕ → List ℕ) (p : ℕ) :
    Prop where
  refines : Refines ptbl capacity index (kept ++ rest) bucket
  curNode : piter.curNode = (iterNodes (rest ++ kept)).head?
  iterCurrPos : piter.iterCurrPos = p + kept.length

lemma Refines.iter (h : Refines ptbl capacity index s bucket) :
    ptbl.lists.Represents .iterList (iterNodes s) := h.lists.iter

lemma Refines.begin (h : Refines ptbl capacity index s bucket) (hp : piter.iterCurrPos = p) :
    Underway ptbl (intHashIterBegin ptbl piter) capacity index [] s bucket p := by
  refine ⟨h, ?_, ?_⟩
  · rw [List.append_nil]
    exact h.iter.phead
  · simp [intHashIterBegin, hp]

/-- The counters are compared, not the nodes. -/
lemma Underway.done_iff (h : Underway ptbl piter capacity index kept rest bucket p) :
    intHashIterDone ptbl piter = true ↔ rest.length ≤ p := by
  have hnum := h.refines.itemNum
  have hpos := h.iterCurrPos
  rw [List.length_append] at hnum
  simp only [intHashIterDone, Bool.or_eq_true, decide_eq_true_eq]
  omega

lemma Underway.getValue (h : Underway ptbl piter capacity index kept (e :: rest) bucket p) :
    intHashIterGetValue ptbl piter = some e.2 := by
  have hcur : piter.curNode = some (.iterNode e.1) := h.curNode
  have hitem : ptbl.items (Node.iterNode e.1).pdata = some ⟨e.2.1, index e.2.1, e.2.2⟩ :=
    h.refines.items e (by simp)
  simp only [intHashIterGetValue, hcur, hitem, Option.bind_eq_bind, Option.bind_some]

/-- Behind the last node the head comes again. -/
lemma some_headD {α : Type*} (l l' : List α) (b : α) :
    some ((l' ++ l).headD b) = (l' ++ (l ++ [b])).head? := by
  cases l' with
  | nil => cases l <;> rfl
  | cons c l' => rfl

/-- A round that keeps the item. -/
lemma Underway.forward (h : Underway ptbl piter capacity index kept (e :: rest) bucket p) :
    Underway ptbl (intHashIterForward ptbl piter) capacity index (kept ++ [e]) rest bucket p := by
  have hcur : piter.curNode = some (.iterNode e.1) := h.curNode
  have hiter := h.refines.iter
  rw [iterNodes_append, iterNodes_cons] at hiter
  have hpos := h.iterCurrPos
  refine ⟨?_, ?_, ?_⟩
  · rw [List.append_assoc]
    exact h.refines
  · simp only [intHashIterForward, hcur, hiter.next_eq, some_headD]
    simp [iterNodes]
  · simp only [intHashIterForward, hcur, List.length_append, List.length_singleton]
    push_cast
    omega

/-- A round that removes the item: the node goes back to the last one that was kept. -/
lemma Underway.remove (h : Underway ptbl piter capacity index kept (e :: rest) bucket p) :
    ∃ ptbl' piter' bucket', intHashIterRemove ptbl piter = some (1, ptbl', piter') ∧
      Underway ptbl' (intHashIterForward ptbl' piter') capacity index kept rest bucket' p := by
  have hcur : piter.curNode = some (.iterNode e.1) := h.curNode
  have hitem : ptbl.items (Node.iterNode e.1).pdata = some ⟨e.2.1, index e.2.1, e.2.2⟩ :=
    h.refines.items e (by simp)
  have hiter := h.refines.iter
  have hpos := h.iterCurrPos
  have hnum := h.refines.itemNum
  have hnodup := h.refines.nodup
  obtain ⟨ptbl', bucket', hdrop, hrest⟩ := h.refines.drop
  have hdrop' : ptbl.drop (index e.2.1) (Node.iterNode e.1).pdata = some ptbl' := hdrop
  have hiter' := hrest.iter
  rw [iterNodes_append, iterNodes_cons] at hiter
  rw [List.length_append, List.length_cons] at hnum
  unfold intHashIterRemove
  rw [if_neg (by omega), hcur]
  simp only [hitem, hdrop', Option.bind_eq_bind, Option.bind_some]
  refine ⟨_, _, bucket', rfl, hrest, ?_, ?_⟩
  · rcases kept.eq_nil_or_concat' with rfl | ⟨kept, z, rfl⟩
    · have hphead : (ptbl.lists.list .iterList).phead = some (.iterNode e.1) := hiter.phead
      rw [if_pos (.inl hphead.symm), List.append_nil]
      exact hiter'.phead
    · -- the head is one that was kept
      have hphead : (ptbl.lists.list .iterList).phead ≠ some (.iterNode e.1) := by
        intro heq
        have hhead := hiter.phead.symm.trans heq
        have hmem : Node.iterNode e.1 ∈ iterNodes (kept ++ [z]) := by
          rw [List.head?_append_of_ne_nil _ (by simp [iterNodes])] at hhead
          exact List.mem_of_head? hhead
        exact (List.nodup_append.mp hiter.nodup).2.2 _ hmem _ List.mem_cons_self rfl
      have hcond : ¬ (some (Node.iterNode e.1) = (ptbl.lists.list .iterList).phead ∨
          ptbl.itemNum ≤ 1) := by
        rintro (heq | hle)
        · exact hphead heq.symm
        · rw [List.length_append, List.length_singleton] at hnum
          omega
      have hprev : ptbl.lists.links.prev (.iterNode e.1) = some (.iterNode z.1) := by
        rw [hiter.prev_eq, iterNodes_append, ← List.append_assoc]
        exact congrArg some List.getLastD_concat
      rw [iterNodes_append, iterNodes_append, List.append_assoc] at hiter'
      rw [if_neg hcond, hprev]
      have hnext : ptbl'.lists.links.next (.iterNode z.1) = _ := hiter'.next_eq
      simp only [intHashIterForward, hnext, some_headD]
      simp [iterNodes]
  · have hforward : ∀ o, (intHashIterForward ptbl' ⟨o, piter.iterCurrPos - 1⟩).iterCurrPos =
        piter.iterCurrPos := by
      intro o
      cases o <;> simp [intHashIterForward]
    rw [hforward]
    exact hpos

/-- **An iteration.** It comes to as many items as there are above its starting position. -/
lemma Underway.loop (h : Underway ptbl piter capacity index kept rest bucket p)
    (hfuel : rest.length < fuel) :
    ∃ ptbl' piter' bucket', iterateLoop gone fuel ptbl piter =
        some ((rest.take (rest.length - p)).map Prod.snd, ptbl', piter') ∧
      Refines ptbl' capacity index (kept ++ ((rest.take (rest.length - p)).filter
        (fun e => !gone e.2.1) ++ rest.drop (rest.length - p))) bucket' ∧
      0 ≤ piter'.iterCurrPos := by
  induction rest generalizing ptbl piter kept bucket fuel with
  | nil =>
    obtain ⟨fuel, rfl⟩ := Nat.exists_eq_add_one_of_ne_zero (by omega : fuel ≠ 0)
    rw [iterateLoop, if_pos (h.done_iff.mpr (Nat.zero_le p)), List.length_nil, Nat.zero_sub]
    refine ⟨ptbl, piter, bucket, rfl, h.refines, ?_⟩
    rw [h.iterCurrPos]
    omega
  | cons e rest ih =>
    obtain ⟨fuel, rfl⟩ := Nat.exists_eq_add_one_of_ne_zero (by omega : fuel ≠ 0)
    by_cases hdone : (e :: rest).length ≤ p
    · rw [iterateLoop, if_pos (h.done_iff.mpr hdone), Nat.sub_eq_zero_of_le hdone]
      refine ⟨ptbl, piter, bucket, rfl, h.refines, ?_⟩
      rw [h.iterCurrPos]
      omega
    · have hlen : (e :: rest).length - p = (rest.length - p) + 1 := by
        rw [List.length_cons] at hdone ⊢
        omega
      have hfuel' : rest.length < fuel := by simpa using hfuel
      rw [iterateLoop, if_neg fun hd => hdone (h.done_iff.mp hd), h.getValue, hlen,
        List.take_succ_cons, List.drop_succ_cons]
      simp only [Option.bind_eq_bind, Option.bind_some]
      cases hgone : gone e.2.1 with
      | true =>
        obtain ⟨ptbl₁, piter₁, bucket₁, hremove, hnext⟩ := h.remove
        obtain ⟨ptbl', piter', bucket', hloop, hrest, hpos⟩ := ih hnext hfuel'
        rw [if_pos rfl, hremove]
        simp only [Option.map_some, Option.bind_some, hloop]
        refine ⟨ptbl', piter', bucket', rfl, ?_, hpos⟩
        rw [List.filter_cons_of_neg (by simp [hgone])]
        exact hrest
      | false =>
        obtain ⟨ptbl', piter', bucket', hloop, hrest, hpos⟩ := ih h.forward hfuel'
        rw [if_neg (by simp)]
        simp only [Option.bind_some, hloop]
        refine ⟨ptbl', piter', bucket', rfl, ?_, hpos⟩
        rw [List.filter_cons_of_pos (by simp [hgone])]
        simpa using hrest

lemma Refines.iterate (gone : Int32 → Bool) (h : Refines ptbl capacity index s bucket)
    (hp : piter.iterCurrPos = p) (hfuel : capacity < fuel) :
    ∃ ptbl' piter' bucket', iterate ptbl piter fuel gone =
        some ((s.take (s.length - p)).map Prod.snd, ptbl', piter') ∧
      Refines ptbl' capacity index ((s.take (s.length - p)).filter (fun e => !gone e.2.1) ++
        s.drop (s.length - p)) bucket' ∧ 0 ≤ piter'.iterCurrPos :=
  (h.begin hp).loop (h.le.trans_lt hfuel)

end SteepSystem.IntHash
