import SteepSystem.DoubleLists.Model

/-!
What each operation of `double_list.c` does to the nodes of a list, in order, and what it leaves
alone.
-/

namespace SteepSystem.DoubleLists

open SteepSystem.Lib.Rings

variable {ν κ : Type} {m m' : Memory ν κ} {k k' : Links ν} {plist q : κ}
  {l l' xs ys s : List ν} {a b n p v : ν}

/-- A list has these nodes, in this order. -/
structure Memory.Represents (m : Memory ν κ) (plist : κ) (xs : List ν) : Prop where
  phead : (m.list plist).phead = xs.head?
  nodesNum : (m.list plist).nodesNum = xs.length
  nodup : xs.Nodup
  ring : Ring m.links xs

/-- One list and some nodes may have changed. -/
structure Memory.Touches (m m' : Memory ν κ) (plist : κ) (s : List ν) : Prop where
  list : ∀ q ≠ plist, m'.list q = m.list q
  next : ∀ v ∉ s, m'.links.next v = m.links.next v
  prev : ∀ v ∉ s, m'.links.prev v = m.links.prev v

lemma Memory.Represents.frame (h : m.Represents q ys) (ht : m.Touches m' plist s) (hq : q ≠ plist)
    (hdisj : ∀ v ∈ ys, v ∉ s) : m'.Represents q ys :=
  ⟨by rw [ht.list q hq]; exact h.phead, by rw [ht.list q hq]; exact h.nodesNum, h.nodup,
    h.ring.congr (fun v hv => ht.next v (hdisj v hv)) fun v hv => ht.prev v (hdisj v hv)⟩

lemma Memory.Represents.head_eq (h : m.Represents plist (a :: l)) :
    (m.list plist).phead = some a := h.phead

/-- The list from one of its nodes on. -/
lemma Memory.Represents.path (h : m.Represents plist (l ++ b :: l')) :
    Path m.links b (l' ++ l) b :=
  (ring_rotate l (b :: l')).mp h.ring

/-- The node before another one is the last of the list that begins at this one. -/
lemma Memory.Represents.prev_eq (h : m.Represents plist (l ++ b :: l')) :
    m.links.prev b = some ((l' ++ l).getLastD b) := h.path.prev_end

lemma Memory.Represents.next_eq (h : m.Represents plist (l ++ b :: l')) :
    m.links.next b = some ((l' ++ l).headD b) := h.path.next_start

lemma mem_getLastD : (l' ++ l).getLastD b ∈ l ++ b :: l' := by
  have hmem : (l' ++ l).getLastD b ∈ b :: (l' ++ l) := List.getLastD_mem_cons
  simp only [List.mem_append, List.mem_cons] at hmem ⊢
  tauto

lemma getLastD_append_cons (l : List ν) : (l ++ b :: l').getLastD a = l'.getLastD b := by
  induction l generalizing a with
  | nil => exact List.getLastD_cons
  | cons c l ih =>
    rw [List.cons_append, List.getLastD_cons]
    exact ih

lemma mem_headD : (l' ++ l).headD b ∈ l ++ b :: l' := by
  cases l' with
  | nil => cases l <;> simp
  | cons c l' => simp

lemma nodup_rotate (h : (l ++ b :: l').Nodup) : (b :: (l' ++ l)).Nodup :=
  List.nodup_append_comm.mp h

/-! ### A node put between two others, and one taken out -/

/-- `n` has come between `a` and `b`. -/
structure Between (k k' : Links ν) (a n b : ν) : Prop where
  left : Joined k' a n
  right : Joined k' n b
  next : ∀ d, d ≠ n → d ≠ a → k'.next d = k.next d
  prev : ∀ d, d ≠ n → d ≠ b → k'.prev d = k.prev d

/-- `p` is no longer between `a` and `b`. -/
structure Without (k k' : Links ν) (a p b : ν) : Prop where
  join : Joined k' a b
  next : ∀ d, d ≠ p → d ≠ a → k'.next d = k.next d
  prev : ∀ d, d ≠ p → d ≠ b → k'.prev d = k.prev d

lemma between_of_update [DecidableEq ν] (hna : n ≠ a) (hnb : n ≠ b)
    (hnext : k'.next = Function.update (Function.update k.next a (some n)) n (some b))
    (hprev : k'.prev = Function.update (Function.update k.prev b (some n)) n (some a)) :
    Between k k' a n b := by
  refine ⟨⟨?_, ?_⟩, ⟨?_, ?_⟩, fun d hdn hda => ?_, fun d hdn hdb => ?_⟩
  · rw [hnext, Function.update_of_ne hna.symm, Function.update_self]
  · rw [hprev, Function.update_self]
  · rw [hnext, Function.update_self]
  · rw [hprev, Function.update_of_ne hnb.symm, Function.update_self]
  · rw [hnext, Function.update_of_ne hdn, Function.update_of_ne hda]
  · rw [hprev, Function.update_of_ne hdn, Function.update_of_ne hdb]

lemma without_of_update [DecidableEq ν] (hpa : p ≠ a) (hpb : p ≠ b)
    (hnext : k'.next = Function.update (Function.update k.next a (some b)) p none)
    (hprev : k'.prev = Function.update (Function.update k.prev b (some a)) p none) :
    Without k k' a p b := by
  refine ⟨⟨?_, ?_⟩, fun d hdp hda => ?_, fun d hdp hdb => ?_⟩
  · rw [hnext, Function.update_of_ne hpa.symm, Function.update_self]
  · rw [hprev, Function.update_of_ne hpb.symm, Function.update_self]
  · rw [hnext, Function.update_of_ne hdp, Function.update_of_ne hda]
  · rw [hprev, Function.update_of_ne hdp, Function.update_of_ne hdb]

lemma Between.ring (hb : Between k k' ((l' ++ l).getLastD b) n b) (h : Path k b (l' ++ l) b)
    (hnodup : (l ++ b :: l').Nodup) (hn : n ∉ l ++ b :: l') : Ring k' (l ++ n :: b :: l') := by
  have hn' : n ∉ b :: (l' ++ l) := by
    simp only [List.mem_append, List.mem_cons] at hn ⊢
    tauto
  have hring : Ring k' (b :: (l' ++ l) ++ [n]) :=
    Ring.insert h (nodup_rotate hnodup) hn' hb.next hb.prev hb.left hb.right
  have hring : Ring k' ((b :: l') ++ (l ++ [n])) := by simpa using hring
  simpa using (ring_rotate _ _).mp hring

lemma Without.ring (hw : Without k k' ((l' ++ l).getLastD p) p ((l' ++ l).headD p))
    (h : Path k p (l' ++ l) p) (hnodup : (l ++ p :: l').Nodup) : Ring k' (l ++ l') := by
  rw [ring_rotate]
  have hnodup := nodup_rotate hnodup
  cases hrest : l' ++ l with
  | nil => trivial
  | cons b t =>
    rw [hrest] at hw h hnodup
    rw [List.getLastD_cons] at hw
    exact Ring.erase h hnodup hw.next hw.prev hw.join

lemma Between.touches (hb : Between m.links m'.links a n b) (hlist : ∀ q ≠ plist,
    m'.list q = m.list q) (ha : a ∈ xs) (hbs : b ∈ xs) : m.Touches m' plist (n :: xs) := by
  refine ⟨hlist, fun v hv => ?_, fun v hv => ?_⟩
  · refine hb.next v (fun heq => hv ?_) fun heq => hv ?_
    · exact heq ▸ List.mem_cons_self
    · exact heq ▸ List.mem_cons_of_mem n ha
  · refine hb.prev v (fun heq => hv ?_) fun heq => hv ?_
    · exact heq ▸ List.mem_cons_self
    · exact heq ▸ List.mem_cons_of_mem n hbs

/-- The list with the new node. -/
lemma Between.represents (hb : Between m.links m'.links ((l' ++ l).getLastD b) n b)
    (h : m.Represents plist (l ++ b :: l')) (hn : n ∉ l ++ b :: l')
    (hlist : ∀ q ≠ plist, m'.list q = m.list q)
    (hhead : (m'.list plist).phead = (l ++ n :: b :: l').head?)
    (hnum : (m'.list plist).nodesNum = (m.list plist).nodesNum + 1) :
    m'.Represents plist (l ++ n :: b :: l') ∧ m.Touches m' plist (n :: (l ++ b :: l')) := by
  refine ⟨⟨hhead, ?_, ?_, hb.ring h.path h.nodup hn⟩, hb.touches hlist mem_getLastD (by simp)⟩
  · rw [hnum, h.nodesNum]
    simp only [List.length_append, List.length_cons]
    omega
  · exact List.nodup_middle.mpr (List.nodup_cons.mpr ⟨hn, h.nodup⟩)

lemma Without.touches (hw : Without m.links m'.links a p b) (hlist : ∀ q ≠ plist,
    m'.list q = m.list q) (ha : a ∈ xs) (hp : p ∈ xs) (hb : b ∈ xs) :
    m.Touches m' plist xs := by
  refine ⟨hlist, fun v hv => ?_, fun v hv => ?_⟩
  · exact hw.next v (fun heq => hv (heq ▸ hp)) fun heq => hv (heq ▸ ha)
  · exact hw.prev v (fun heq => hv (heq ▸ hp)) fun heq => hv (heq ▸ hb)

/-- The list without the node. -/
lemma Without.represents
    (hw : Without m.links m'.links ((l' ++ l).getLastD p) p ((l' ++ l).headD p))
    (h : m.Represents plist (l ++ p :: l')) (hlist : ∀ q ≠ plist, m'.list q = m.list q)
    (hhead : (m'.list plist).phead = (l ++ l').head?)
    (hnum : (m'.list plist).nodesNum = (m.list plist).nodesNum - 1) :
    m'.Represents plist (l ++ l') ∧ m.Touches m' plist (l ++ p :: l') := by
  refine ⟨⟨hhead, ?_, ?_, hw.ring h.path h.nodup⟩,
    hw.touches hlist mem_getLastD (by simp) mem_headD⟩
  · rw [hnum, h.nodesNum]
    simp only [List.length_append, List.length_cons]
    omega
  · exact (List.nodup_cons.mp (List.nodup_middle.mp h.nodup)).2

/-! ### Stores into a list and into a node -/

section Header

variable [DecidableEq κ]

@[simp] lemma setHead_links (h : Option ν) : (m.setHead plist h).links = m.links := rfl

@[simp] lemma setNum_links (c : ℕ) : (m.setNum plist c).links = m.links := rfl

@[simp] lemma setHead_phead (h : Option ν) : ((m.setHead plist h).list plist).phead = h := by
  simp [Memory.setHead]

@[simp] lemma setHead_nodesNum (h : Option ν) :
    ((m.setHead plist h).list q).nodesNum = (m.list q).nodesNum := by
  by_cases hq : q = plist
  · subst hq
    simp [Memory.setHead]
  · simp [Memory.setHead, hq]

@[simp] lemma setNum_nodesNum (c : ℕ) : ((m.setNum plist c).list plist).nodesNum = c := by
  simp [Memory.setNum]

@[simp] lemma setNum_phead (c : ℕ) : ((m.setNum plist c).list q).phead = (m.list q).phead := by
  by_cases hq : q = plist
  · subst hq
    simp [Memory.setNum]
  · simp [Memory.setNum, hq]

lemma setHead_list_of_ne (hq : q ≠ plist) (h : Option ν) :
    (m.setHead plist h).list q = m.list q := Function.update_of_ne hq _ _

lemma setNum_list_of_ne (hq : q ≠ plist) (c : ℕ) :
    (m.setNum plist c).list q = m.list q := Function.update_of_ne hq _ _

lemma setHead_self {o : Option ν} (h : (m.list plist).phead = o) : m.setHead plist o = m := by
  subst h
  exact congrArg (Memory.mk m.links) (Function.update_eq_self plist m.list)

lemma setNum_self {c : ℕ} (h : (m.list plist).nodesNum = c) : m.setNum plist c = m := by
  subst h
  exact congrArg (Memory.mk m.links) (Function.update_eq_self plist m.list)

end Header

section Node

variable [DecidableEq ν]

@[simp] lemma setNext_list (o : Option ν) : (m.setNext v o).list = m.list := rfl

@[simp] lemma setPrev_list (o : Option ν) : (m.setPrev v o).list = m.list := rfl

@[simp] lemma setNext_prev (o : Option ν) : (m.setNext v o).links.prev = m.links.prev := rfl

@[simp] lemma setPrev_next (o : Option ν) : (m.setPrev v o).links.next = m.links.next := rfl

lemma setNext_next (o : Option ν) (d : ν) :
    (m.setNext v o).links.next d = if d = v then o else m.links.next d :=
  Function.update_apply _ _ _ _

lemma setPrev_prev (o : Option ν) (d : ν) :
    (m.setPrev v o).links.prev d = if d = v then o else m.links.prev d :=
  Function.update_apply _ _ _ _

/-- Between the tail and the head. -/
lemma linkBetween_spec (h : m.Represents plist (a :: l)) (hn : n ∉ a :: l) :
    ∃ m', linkBetween m a n = some m' ∧ m'.list = m.list ∧
      Between m.links m'.links (l.getLastD a) n a := by
  have hprev : m.links.prev a = some (l.getLastD a) := Path.prev_end h.ring
  have hnext : m.links.next a = some (l.headD a) := Path.next_start h.ring
  have hna : n ≠ a := fun heq => hn (heq ▸ List.mem_cons_self)
  have hnl : n ≠ l.getLastD a := fun heq => hn (heq ▸ List.getLastD_mem_cons)
  -- with one node, the tail and the head are this node
  have hlink : linkBetween m a n = some ((((m.setNext n (some a)).setPrev n
      (some (l.getLastD a))).setPrev a (some n)).setNext (l.getLastD a) (some n)) := by
    unfold linkBetween
    simp only [setPrev_next, setNext_next, hna.symm, if_false, hnext, hprev]
    cases l with
    | nil => exact if_pos rfl
    | cons b l =>
      have hba : b ≠ a := fun heq => (List.nodup_cons.mp h.nodup).1 (heq ▸ List.mem_cons_self)
      exact if_neg fun heq => hba (Option.some.inj heq)
  refine ⟨_, hlink, rfl, between_of_update hnl hna ?_ ?_⟩
  · exact Function.update_comm hnl _ _ _
  · exact Function.update_comm hna _ _ _

/-- The four cases make the same links. -/
lemma linkLists_eq (m : Memory ν κ) (pheadDes phead ptailDes ptail : ν) :
    linkLists m pheadDes phead (some ptailDes) (some ptail) =
      some ((((m.setPrev pheadDes (some ptail)).setNext ptailDes (some phead)).setPrev phead
        (some ptailDes)).setNext ptail (some pheadDes)) := by
  unfold linkLists
  simp only [Option.some.injEq, Option.bind_eq_bind, Option.bind_some]
  by_cases hdes : pheadDes = ptailDes
  · subst hdes
    by_cases hsrc : phead = ptail
    · subst hsrc
      rw [if_pos rfl, if_pos rfl]
      rfl
    · rw [if_pos rfl, if_neg hsrc]
      rfl
  · by_cases hsrc : phead = ptail
    · subst hsrc
      rw [if_neg hdes, if_pos rfl]
      rfl
    · rw [if_neg hdes, if_neg hsrc]
      rfl

lemma ring_append_of_update (h : Ring k (a :: l)) (h' : Ring k (b :: l'))
    (hnodup : (a :: l ++ b :: l').Nodup)
    (hnext : k'.next = Function.update (Function.update k.next (l.getLastD a) (some b))
      (l'.getLastD b) (some a))
    (hprev : k'.prev = Function.update (Function.update k.prev a (some (l'.getLastD b))) b
      (some (l.getLastD a))) : Ring k' (a :: l ++ b :: l') := by
  have hne := (List.nodup_append.mp hnodup).2.2
  have hab : a ≠ b := hne a List.mem_cons_self b List.mem_cons_self
  have hlast : l.getLastD a ≠ l'.getLastD b :=
    hne _ List.getLastD_mem_cons _ List.getLastD_mem_cons
  refine Ring.append h h' hnodup (fun d hd hd' => ?_) (fun d hda hdb => ?_) ⟨?_, ?_⟩ ⟨?_, ?_⟩
  · rw [hnext, Function.update_of_ne hd', Function.update_of_ne hd]
  · rw [hprev, Function.update_of_ne hdb, Function.update_of_ne hda]
  · rw [hnext, Function.update_of_ne hlast, Function.update_self]
  · rw [hprev, Function.update_self]
  · rw [hnext, Function.update_self]
  · rw [hprev, Function.update_of_ne hab, Function.update_self]

end Node

/-! ### Insertion -/

section Operations

variable [DecidableEq ν] [DecidableEq κ]

lemma linkAlone_spec :
    (linkAlone m plist n).Represents plist [n] ∧ m.Touches (linkAlone m plist n) plist [n] := by
  refine ⟨⟨?_, ?_, List.nodup_singleton n, ?_, ?_⟩, ?_, ?_, ?_⟩
  · simp [linkAlone]
  · simp [linkAlone]
  · simp [linkAlone, setNext_next]
  · simp [linkAlone, setPrev_prev]
  · intro q hq
    rw [linkAlone, setNum_list_of_ne hq, setNext_list, setPrev_list, setHead_list_of_ne hq]
  · intro v hv
    rw [linkAlone, setNum_links, setNext_next, if_neg (by simpa using hv)]
    rfl
  · intro v hv
    rw [linkAlone, setNum_links, setNext_prev, setPrev_prev, if_neg (by simpa using hv)]
    rfl

lemma insertAsHead_spec (h : m.Represents plist xs) (hn : n ∉ xs) :
    ∃ m', doubleListInsertAsHead m plist n = some m' ∧ m'.Represents plist (n :: xs) ∧
      m.Touches m' plist (n :: xs) := by
  unfold doubleListInsertAsHead
  cases xs with
  | nil =>
    rw [h.phead]
    exact ⟨_, rfl, linkAlone_spec⟩
  | cons a l =>
    obtain ⟨m', hm', hlist, hbetween⟩ := linkBetween_spec h hn
    rw [h.head_eq]
    simp only [hm']
    refine ⟨_, rfl, Between.represents (l := []) ?_ h hn ?_ ?_ ?_⟩
    · rw [List.append_nil]
      exact hbetween
    · intro q hq
      rw [setNum_list_of_ne hq, setHead_list_of_ne hq, hlist]
    · rw [setNum_phead, setHead_phead]
      rfl
    · rw [setNum_nodesNum, setHead_nodesNum, hlist]

lemma appendAsTail_spec (h : m.Represents plist xs) (hn : n ∉ xs) :
    ∃ m', doubleListAppendAsTail m plist n = some m' ∧ m'.Represents plist (xs ++ [n]) ∧
      m.Touches m' plist (n :: xs) := by
  unfold doubleListAppendAsTail
  cases xs with
  | nil =>
    rw [h.phead]
    exact ⟨_, rfl, linkAlone_spec⟩
  | cons a l =>
    obtain ⟨m', hm', hlist, hbetween⟩ := linkBetween_spec h hn
    rw [h.head_eq]
    simp only [hm']
    refine ⟨_, rfl, ⟨?_, ?_, ?_, ?_⟩, ?_⟩
    · rw [setNum_phead, hlist, h.head_eq]
      rfl
    · rw [setNum_nodesNum, hlist, h.nodesNum, List.length_append, List.length_singleton]
    · exact List.nodup_append_comm.mp (List.nodup_cons.mpr ⟨hn, h.nodup⟩)
    · have hring : Ring m'.links (n :: a :: l) :=
        Between.ring (l := []) (by simpa using hbetween)
        (by rw [List.append_nil]; exact h.ring) h.nodup hn
      exact (ring_rotate [n] (a :: l)).mp hring
    · refine Between.touches hbetween ?_ List.getLastD_mem_cons List.mem_cons_self
      intro q hq
      rw [setNum_list_of_ne hq, hlist]

lemma insertBefore_spec (h : m.Represents plist (l ++ b :: l')) (hn : n ∉ l ++ b :: l') :
    ∃ m', doubleListInsertBefore m plist b n = some m' ∧
      m'.Represents plist (l ++ n :: b :: l') ∧ m.Touches m' plist (n :: (l ++ b :: l')) := by
  unfold doubleListInsertBefore
  cases l with
  | nil =>
    rw [if_pos (by rw [h.phead]; rfl)]
    exact insertAsHead_spec h hn
  | cons c l =>
    have hcb : b ≠ c := fun heq =>
      (List.nodup_cons.mp h.nodup).1 (heq ▸ List.mem_append_right l List.mem_cons_self)
    have hhead : (m.list plist).phead = some c := h.phead
    rw [hhead, if_neg fun heq => hcb (Option.some.inj heq), h.prev_eq]
    refine ⟨_, rfl, Between.represents ?_ h hn (fun q hq => ?_) ?_ ?_⟩
    · exact between_of_update (fun heq => hn (heq ▸ mem_getLastD)) (fun heq => hn (by simp [heq]))
        rfl rfl
    · exact setNum_list_of_ne hq _
    · rw [setNum_phead]
      exact hhead
    · rw [setNum_nodesNum]
      rfl

lemma appendAfter_spec (h : m.Represents plist (l ++ b :: l')) (hn : n ∉ l ++ b :: l') :
    ∃ m', doubleListAppendAfter m plist b n = some m' ∧
      m'.Represents plist (l ++ b :: n :: l') ∧ m.Touches m' plist (n :: (l ++ b :: l')) := by
  obtain ⟨a, t, hat⟩ : ∃ a t, l ++ b :: l' = a :: t := by cases l <;> simp
  have hhead : (m.list plist).phead = some a := by rw [h.phead, hat, List.head?_cons]
  have htail : m.links.prev a = some (t.getLastD a) := by
    rw [hat] at h
    exact Path.prev_end h.ring
  have hlast : t.getLastD a = l'.getLastD b := by
    have hcons : (a :: t).getLastD a = t.getLastD a := List.getLastD_cons
    rw [← hcons, ← hat, getLastD_append_cons]
  unfold doubleListAppendAfter
  simp only [hhead, htail, hlast, Option.bind_eq_bind, Option.bind_some]
  cases l' with
  | nil =>
    rw [List.getLastD_nil, if_pos rfl]
    have htail := appendAsTail_spec h hn
    rwa [List.append_assoc] at htail
  | cons c l' =>
    -- between `b` and `c`, which is not the head
    have hsplit : l ++ b :: c :: l' = (l ++ [b]) ++ c :: l' := by simp
    have hne : b ≠ (c :: l').getLastD b := by
      intro heq
      rw [List.getLastD_cons] at heq
      refine (List.nodup_cons.mp (nodup_rotate h.nodup)).1 (List.mem_append_left l ?_)
      rw [heq]
      exact List.getLastD_mem_cons
    rw [if_neg fun heq => hne (Option.some.inj heq), h.next_eq]
    have hresult : l ++ b :: n :: c :: l' = (l ++ [b]) ++ n :: c :: l' := by simp
    rw [hsplit] at h hn ⊢
    rw [hresult]
    refine ⟨_, rfl, Between.represents ?_ h hn (fun q hq => ?_) ?_ ?_⟩
    · rw [← List.append_assoc, List.getLastD_concat]
      exact between_of_update (fun heq => hn (by simp [heq])) (fun heq => hn (by simp [heq]))
        rfl rfl
    · exact setNum_list_of_ne hq _
    · rw [setNum_phead, ← hresult]
      refine hhead.trans ?_
      have hsame : (l ++ b :: n :: c :: l').head? = (l ++ b :: c :: l').head? := by
        cases l <;> rfl
      rw [hsame, hat, List.head?_cons]
    · rw [setNum_nodesNum]
      rfl

/-! ### Removal -/

/-- The head of two nodes at least. With two, the tail is also the next node, and the stores are
the same. -/
lemma removeHead_eq {t : List ν} (h : m.Represents plist (p :: b :: t)) :
    doubleListRemove m plist p = some ((unlink (((m.setPrev b (some (t.getLastD b))).setNext
      (t.getLastD b) (some b)).setHead plist (some b)) p).setNum plist
        (((((m.setPrev b (some (t.getLastD b))).setNext (t.getLastD b) (some b)).setHead plist
          (some b)).list plist).nodesNum - 1)) := by
  have hnext : m.links.next p = some b := Path.next_start h.ring
  have hprev : m.links.prev p = some (t.getLastD b) := by
    rw [Path.prev_end h.ring, List.getLastD_cons]
  have hap : p ≠ t.getLastD b := fun heq =>
    (List.nodup_cons.mp h.nodup).1 (heq ▸ List.getLastD_mem_cons)
  unfold doubleListRemove
  simp only [h.head_eq, hprev, hnext, Option.bind_eq_bind, Option.bind_some, if_true]
  rw [if_neg fun heq => hap (Option.some.inj heq).symm]
  by_cases hab : t.getLastD b = b
  · rw [if_pos (by rw [hab]), hab]
    rfl
  · rw [if_neg fun heq => hab (Option.some.inj heq)]
    simp only [setPrev_next, setNext_next, if_neg hap, hnext]
    rfl

lemma remove_spec (h : m.Represents plist (l ++ p :: l')) :
    ∃ m', doubleListRemove m plist p = some m' ∧ m'.Represents plist (l ++ l') ∧
      m.Touches m' plist (l ++ p :: l') := by
  have hnodup := nodup_rotate h.nodup
  have hnext := h.next_eq
  have hprev := h.prev_eq
  cases l with
  | nil =>
    rw [List.append_nil] at hnext hprev hnodup
    cases l' with
    | nil =>
      unfold doubleListRemove
      simp only [h.head_eq, hprev, hnext, Option.bind_eq_bind, Option.bind_some, if_true]
      rw [List.getLastD_nil, if_pos rfl]
      refine ⟨_, rfl, ⟨?_, ?_, List.nodup_nil, trivial⟩, fun q hq => ?_, fun v hv => ?_,
        fun v hv => ?_⟩
      · rw [setNum_phead]
        exact setHead_phead none
      · rw [setNum_nodesNum]
        rfl
      · rw [setNum_list_of_ne hq]
        exact setHead_list_of_ne hq none
      · exact Function.update_of_ne (by simpa using hv) _ _
      · exact Function.update_of_ne (by simpa using hv) _ _
    | cons b t =>
      have hbp : p ≠ b := fun heq => (List.nodup_cons.mp hnodup).1 (heq ▸ List.mem_cons_self)
      have hap : p ≠ t.getLastD b := fun heq =>
        (List.nodup_cons.mp hnodup).1 (heq ▸ List.getLastD_mem_cons)
      refine ⟨_, removeHead_eq h, Without.represents (l := []) ?_ h (fun q hq => ?_) ?_ ?_⟩
      · rw [List.append_nil, List.getLastD_cons, List.headD_cons]
        exact without_of_update hap hbp rfl rfl
      · rw [setNum_list_of_ne hq]
        exact setHead_list_of_ne hq _
      · rw [setNum_phead]
        exact setHead_phead _
      · rw [setNum_nodesNum]
        exact congrArg (· - 1) (setHead_nodesNum _)
  | cons c l =>
    have hhead : (m.list plist).phead = some c := h.phead
    have hcp : c ≠ p := fun heq =>
      (List.nodup_cons.mp h.nodup).1 (heq ▸ List.mem_append_right l List.mem_cons_self)
    have hmem : (l' ++ c :: l).headD p ∈ l' ++ c :: l := by cases l' <;> simp
    have hmem' : (l' ++ c :: l).getLastD p ∈ l' ++ c :: l := by
      rw [getLastD_append_cons]
      exact List.mem_append_right l' List.getLastD_mem_cons
    have hbp : p ≠ (l' ++ c :: l).headD p := fun heq => (List.nodup_cons.mp hnodup).1 (heq ▸ hmem)
    have hap : p ≠ (l' ++ c :: l).getLastD p := fun heq =>
      (List.nodup_cons.mp hnodup).1 (heq ▸ hmem')
    unfold doubleListRemove
    simp only [hhead, hprev, hnext, Option.bind_eq_bind, Option.bind_some, if_neg hcp,
      setPrev_next, setPrev_prev, if_neg hbp]
    refine ⟨_, rfl, Without.represents ?_ h (fun q hq => ?_) ?_ ?_⟩
    · exact without_of_update hap hbp rfl rfl
    · exact setNum_list_of_ne hq _
    · rw [setNum_phead]
      exact hhead
    · rw [setNum_nodesNum]
      rfl

lemma getFromHead_spec (h : m.Represents plist xs) :
    ∃ m', doubleListGetFromHead m plist = some (xs.head?, m') ∧ m'.Represents plist xs.tail ∧
      m.Touches m' plist xs := by
  unfold doubleListGetFromHead
  rw [h.phead]
  cases xs with
  | nil => exact ⟨m, rfl, h, fun _ _ => rfl, fun _ _ => rfl, fun _ _ => rfl⟩
  | cons a l =>
    obtain ⟨m', hm', hrest, htouch⟩ := remove_spec (l := []) h
    simp only [List.head?_cons, hm']
    exact ⟨m', rfl, hrest, htouch⟩

lemma getFromTail_spec (h : m.Represents plist xs) :
    ∃ m', doubleListGetFromTail m plist = some (xs.getLast?, m') ∧
      m'.Represents plist xs.dropLast ∧ m.Touches m' plist xs := by
  unfold doubleListGetFromTail
  rw [h.phead]
  rcases xs.eq_nil_or_concat' with rfl | ⟨l, p, rfl⟩
  · exact ⟨m, rfl, h, fun _ _ => rfl, fun _ _ => rfl, fun _ _ => rfl⟩
  · rw [List.getLast?_concat, List.dropLast_concat]
    cases l with
    | nil =>
      have hnext : m.links.next p = some p := h.next_eq
      simp only [List.nil_append, List.head?_cons, hnext, if_true]
      refine ⟨_, rfl, ⟨?_, ?_, List.nodup_nil, trivial⟩, fun q hq => ?_, fun _ _ => rfl,
        fun _ _ => rfl⟩
      · rw [setNum_phead]
        exact setHead_phead none
      · exact setNum_nodesNum 0
      · rw [setNum_list_of_ne hq, setHead_list_of_ne hq]
    | cons a l =>
      obtain ⟨m', hm', hrest, htouch⟩ := remove_spec h
      have hnext : m.links.next a = some ((l ++ [p]).headD a) := Path.next_start h.ring
      have hprev : m.links.prev a = some ((l ++ [p]).getLastD a) := Path.prev_end h.ring
      have hmem : (l ++ [p]).headD a ∈ l ++ [p] := by cases l <;> simp
      have hne : a ≠ (l ++ [p]).headD a := fun heq => (List.nodup_cons.mp h.nodup).1 (heq ▸ hmem)
      rw [List.getLastD_concat] at hprev
      simp only [List.cons_append, List.head?_cons, hnext]
      rw [if_neg fun heq => hne (Option.some.inj heq), hprev]
      simp only [Option.bind_eq_bind, Option.bind_some, hm']
      rw [List.append_nil] at hrest
      exact ⟨m', rfl, hrest, htouch⟩

/-! ### Two lists -/

/-- The source keeps its count, and an empty destination leaves it its head too. -/
lemma appendList_spec {plistDes : κ} (hne : plistDes ≠ plist) (hd : m.Represents plistDes xs)
    (hs : m.Represents plist ys) (hdisj : xs.Disjoint ys) :
    ∃ m', doubleListAppendList m plistDes plist = some m' ∧ m'.Represents plistDes (xs ++ ys) ∧
      (m'.list plist).nodesNum = ys.length ∧
      (m'.list plist).phead = (if xs = [] then ys.head? else none) ∧
      (∀ q ≠ plistDes, q ≠ plist → m'.list q = m.list q) ∧
      (∀ v ∉ xs ++ ys, m'.links.next v = m.links.next v) ∧
      ∀ v ∉ xs ++ ys, m'.links.prev v = m.links.prev v := by
  unfold doubleListAppendList
  rw [hd.phead, hs.phead]
  cases xs with
  | nil =>
    refine ⟨_, rfl, ⟨?_, ?_, hs.nodup, hs.ring⟩, ?_, ?_, fun q hq _ => ?_, fun _ _ => rfl,
      fun _ _ => rfl⟩
    · rw [setNum_phead, setHead_phead]
      rfl
    · rw [setNum_nodesNum, setHead_nodesNum, hs.nodesNum]
      rfl
    · rw [setNum_list_of_ne hne.symm, setHead_nodesNum, hs.nodesNum]
    · rw [setNum_phead, setHead_list_of_ne hne.symm, hs.phead, if_pos rfl]
    · rw [setNum_list_of_ne hq, setHead_list_of_ne hq]
  | cons a l =>
    cases ys with
    | nil =>
      rw [List.append_nil]
      exact ⟨m, rfl, hd, hs.nodesNum, by rw [hs.phead, if_neg (List.cons_ne_nil a l)]; rfl,
        fun _ _ _ => rfl, fun _ _ => rfl, fun _ _ => rfl⟩
    | cons b l' =>
      have hprev : m.links.prev a = some (l.getLastD a) := Path.prev_end hd.ring
      have hprev' : m.links.prev b = some (l'.getLastD b) := Path.prev_end hs.ring
      have hnodup : (a :: l ++ b :: l').Nodup := List.nodup_append'.mpr ⟨hd.nodup, hs.nodup, hdisj⟩
      have hmem : l.getLastD a ∈ a :: l := List.getLastD_mem_cons
      have hmem' : l'.getLastD b ∈ b :: l' := List.getLastD_mem_cons
      simp only [List.head?_cons, hprev, hprev', linkLists_eq, Option.bind_eq_bind,
        Option.bind_some]
      refine ⟨_, rfl, ⟨?_, ?_, hnodup, ?_⟩, ?_, ?_, fun q hq hq' => ?_, fun v hv => ?_,
        fun v hv => ?_⟩
      · rw [setNum_phead]
        exact (congrArg _ (setHead_list_of_ne hne none)).trans hd.phead
      · rw [setNum_nodesNum, List.length_append, ← hd.nodesNum, ← hs.nodesNum]
        exact congrArg₂ _ (setHead_nodesNum none) (setHead_nodesNum none)
      · exact ring_append_of_update hd.ring hs.ring hnodup rfl rfl
      · rw [setNum_list_of_ne hne.symm]
        exact (setHead_nodesNum none).trans hs.nodesNum
      · rw [setNum_phead, if_neg (List.cons_ne_nil a l)]
        exact setHead_phead none
      · rw [setNum_list_of_ne hq]
        exact setHead_list_of_ne hq' none
      · have hmem : l.getLastD a ∈ a :: l := List.getLastD_mem_cons
        have hmem' : l'.getLastD b ∈ b :: l' := List.getLastD_mem_cons
        refine (Function.update_of_ne (fun heq => hv ?_) _ _).trans
          (Function.update_of_ne (fun heq => hv ?_) _ _)
        · exact heq ▸ List.mem_append_right _ hmem'
        · exact heq ▸ List.mem_append_left _ hmem
      · refine (Function.update_of_ne (fun heq => hv ?_) _ _).trans
          (Function.update_of_ne (fun heq => hv ?_) _ _)
        · exact heq ▸ List.mem_append_right _ List.mem_cons_self
        · exact heq ▸ List.mem_append_left _ List.mem_cons_self

/-- What the callers do: the source is made empty by hand. -/
lemma appendList_init_spec {plistDes : κ} (hne : plistDes ≠ plist)
    (hd : m.Represents plistDes xs) (hs : m.Represents plist ys) (hdisj : xs.Disjoint ys) :
    ∃ m', (doubleListAppendList m plistDes plist).map (doubleListInit · plist) = some m' ∧
      m'.Represents plistDes (xs ++ ys) ∧ m'.Represents plist [] ∧
      (∀ q ≠ plistDes, q ≠ plist → m'.list q = m.list q) ∧
      (∀ v ∉ xs ++ ys, m'.links.next v = m.links.next v) ∧
      ∀ v ∉ xs ++ ys, m'.links.prev v = m.links.prev v := by
  obtain ⟨m', hm', hall, -, -, hrest, hnext, hprev⟩ := appendList_spec hne hd hs hdisj
  refine ⟨doubleListInit m' plist, by rw [hm', Option.map_some], ?_, ?_, fun q hq hq' => ?_,
    hnext, hprev⟩
  · have hlist : (doubleListInit m' plist).list plistDes = m'.list plistDes := by
      rw [doubleListInit, setNum_list_of_ne hne, setHead_list_of_ne hne]
    exact ⟨by rw [hlist, hall.phead], by rw [hlist, hall.nodesNum], hall.nodup, hall.ring⟩
  · exact ⟨by rw [doubleListInit, setNum_phead, setHead_phead]; rfl,
      by rw [doubleListInit, setNum_nodesNum]; rfl, List.nodup_nil, trivial⟩
  · rw [doubleListInit, setNum_list_of_ne hq', setHead_list_of_ne hq', hrest q hq hq']

/-- An empty list appended changes nothing. -/
lemma appendList_empty {plistDes : κ} (hd : m.Represents plistDes xs) (hs : m.Represents plist []) :
    doubleListAppendList m plistDes plist = some m := by
  unfold doubleListAppendList
  cases xs with
  | nil =>
    have hhead : m.setHead plistDes none = m := setHead_self hd.phead
    simp only [hd.phead, hs.phead, List.head?_nil, hhead]
    rw [setNum_self (hd.nodesNum.trans hs.nodesNum.symm)]
  | cons b l =>
    rw [hd.phead, hs.phead]
    rfl

/-- A list appended to itself is counted twice. -/
lemma appendList_self_nodesNum (h : m.Represents plist xs)
    (hm : doubleListAppendList m plist plist = some m') :
    (m'.list plist).nodesNum = xs.length + xs.length := by
  unfold doubleListAppendList at hm
  cases xs with
  | nil =>
    simp only [h.phead, List.head?_nil, Option.some.injEq] at hm
    rw [← hm, setNum_nodesNum, setHead_nodesNum, h.nodesNum]
    rfl
  | cons b l =>
    have hprev : m.links.prev b = some (l.getLastD b) := Path.prev_end h.ring
    simp only [h.head_eq, hprev, linkLists_eq, Option.bind_eq_bind, Option.bind_some,
      Option.pure_def, Option.some.injEq] at hm
    rw [← hm, setNum_nodesNum, ← h.nodesNum]
    exact congrArg₂ _ (setHead_nodesNum none) (setHead_nodesNum none)

end Operations

end SteepSystem.DoubleLists
