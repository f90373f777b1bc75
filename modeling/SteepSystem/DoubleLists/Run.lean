import SteepSystem.DoubleLists.Operations

/-!
Sequences of the operations of `double_list.c`, over any number of lists, against lists of nodes.
-/

namespace SteepSystem.DoubleLists

open SteepSystem.Lib.Rings

inductive Op (ν κ : Type)
  | appendAsTail (plist : κ) (pnode : ν)
  | insertAsHead (plist : κ) (pnode : ν)
  | insertBefore (plist : κ) (pbaseNode pnode : ν)
  | appendAfter (plist : κ) (pbaseNode pnode : ν)
  | remove (plist : κ) (pnode : ν)
  | getFromHead (plist : κ)
  | getFromTail (plist : κ)
  | appendList (plistDes plist : κ)

variable {ν κ : Type}

/-- A node that is put in is in no list, and one that is named is in the list. -/
def Op.Legal (a : κ → List ν) : Op ν κ → Prop
  | .appendAsTail _ pnode | .insertAsHead _ pnode => ∀ q, pnode ∉ a q
  | .insertBefore plist pbaseNode pnode | .appendAfter plist pbaseNode pnode =>
    pbaseNode ∈ a plist ∧ ∀ q, pnode ∉ a q
  | .remove plist pnode => pnode ∈ a plist
  | .getFromHead _ | .getFromTail _ | .appendList _ _ => True

/-- No list is appended but an empty one. -/
def Op.SourceEmpty (a : κ → List ν) : Op ν κ → Prop
  | .appendList _ plist => a plist = []
  | _ => True

/-- What a reader of the lists sees: the head, the count, a walk along the links and one back from
the tail; and that no node is in two lists. -/
structure Shows (m : Memory ν κ) (a : κ → List ν) : Prop where
  phead : ∀ q, (m.list q).phead = (a q).head?
  nodesNum : ∀ q, (m.list q).nodesNum = (a q).length
  next : ∀ q, follow m.links.next (m.list q).nodesNum (m.list q).phead = a q
  prev : ∀ q, follow m.links.prev (m.list q).nodesNum (doubleListGetTail m q) = (a q).reverse
  disjoint : ∀ q q', q ≠ q' → (a q).Disjoint (a q')

/-- What holds between the steps of a run. -/
structure Sound (m : Memory ν κ) (a : κ → List ν) : Prop where
  represents : ∀ q, m.Represents q (a q)
  disjoint : ∀ q q', q ≠ q' → (a q).Disjoint (a q')

variable {m m' : Memory ν κ} {a : κ → List ν} {plist plistDes q : κ} {r s xs l l' : List ν}
  {b n p : ν} {op : Op ν κ} {o : Option ν}

lemma Memory.Represents.follow_next (h : m.Represents plist xs) :
    follow m.links.next (m.list plist).nodesNum (m.list plist).phead = xs := by
  rw [h.nodesNum, h.phead]
  cases xs with
  | nil => rfl
  | cons a l => exact Path.follow_next h.ring

lemma Memory.Represents.follow_prev (h : m.Represents plist xs) :
    follow m.links.prev (m.list plist).nodesNum (doubleListGetTail m plist) = xs.reverse := by
  rw [h.nodesNum, doubleListGetTail, h.phead]
  cases xs with
  | nil => rfl
  | cons a l => exact Path.follow_prev h.ring

lemma Sound.shows (h : Sound m a) : Shows m a :=
  ⟨fun q => (h.represents q).phead, fun q => (h.represents q).nodesNum,
    fun q => (h.represents q).follow_next, fun q => (h.represents q).follow_prev, h.disjoint⟩

lemma Sound.notMem (h : Sound m a) : ∀ q ≠ plist, ∀ v ∈ a q, v ∉ a plist :=
  fun q hq _ hv hv' => h.disjoint q plist hq hv hv'

lemma Sound.notMem_cons (h : Sound m a) (hn : ∀ q, n ∉ a q) :
    ∀ q ≠ plist, ∀ v ∈ a q, v ∉ n :: a plist := by
  intro q hq v hv hmem
  rcases List.mem_cons.mp hmem with rfl | hmem
  · exact hn q hv
  · exact h.notMem q hq v hv hmem

/-- A list cut at a node of it. -/
lemma Sound.split (h : Sound m a) (hb : b ∈ a plist) :
    ∃ l l', a plist = l ++ b :: l' ∧ b ∉ l := by
  obtain ⟨l, l', hl⟩ := List.append_of_mem hb
  refine ⟨l, l', hl, fun hmem => ?_⟩
  have hnodup := (h.represents plist).nodup
  rw [hl] at hnodup
  exact (List.nodup_append.mp hnodup).2.2 b hmem b List.mem_cons_self rfl

lemma insertIdx_length_add (l : List ν) (k : ℕ) :
    (l ++ l').insertIdx (l.length + k) n = l ++ l'.insertIdx k n := by
  induction l with
  | nil => rw [List.length_nil, Nat.zero_add, List.nil_append, List.nil_append]
  | cons c l ih =>
    rw [List.length_cons, Nat.add_right_comm, List.cons_append, List.insertIdx_succ_cons, ih,
      List.cons_append]

variable [DecidableEq κ]

/-- One list gets other nodes, out of some that are in no other list. -/
lemma Sound.update (h : Sound m a) (hr : m'.Represents plist r) (ht : m.Touches m' plist s)
    (hsub : ∀ v ∈ r, v ∈ s) (hs : ∀ q ≠ plist, ∀ v ∈ a q, v ∉ s) :
    Sound m' (Function.update a plist r) := by
  constructor
  · intro q
    by_cases hq : q = plist
    · subst hq
      rw [Function.update_self]
      exact hr
    · rw [Function.update_of_ne hq]
      exact (h.represents q).frame ht hq (hs q hq)
  · intro q q' hne
    by_cases hq : q = plist
    · subst hq
      rw [Function.update_self, Function.update_of_ne hne.symm]
      exact fun v hv hv' => hs q' hne.symm v hv' (hsub v hv)
    · rw [Function.update_of_ne hq]
      by_cases hq' : q' = plist
      · subst hq'
        rw [Function.update_self]
        exact fun v hv hv' => hs q hq v hv (hsub v hv')
      · rw [Function.update_of_ne hq']
        exact h.disjoint q q' hne

variable [DecidableEq ν]

/-- Where a node is, behind others. -/
lemma insertIdx_idxOf_add (hb : b ∉ l) (k : ℕ) :
    (l ++ b :: l').insertIdx ((l ++ b :: l').idxOf b + k) n = l ++ (b :: l').insertIdx k n := by
  rw [List.idxOf_append_of_notMem hb, List.idxOf_cons_self, Nat.add_zero, insertIdx_length_add]

lemma insertIdx_idxOf (hb : b ∉ l) :
    (l ++ b :: l').insertIdx ((l ++ b :: l').idxOf b) n = l ++ n :: b :: l' :=
  insertIdx_idxOf_add hb 0

lemma insertIdx_idxOf_succ (hb : b ∉ l) :
    (l ++ b :: l').insertIdx ((l ++ b :: l').idxOf b + 1) n = l ++ b :: n :: l' :=
  insertIdx_idxOf_add hb 1

/-- The node that an operation returns, and the memory after it. -/
def exec (m : Memory ν κ) : Op ν κ → Option (Option ν × Memory ν κ)
  | .appendAsTail plist pnode => (doubleListAppendAsTail m plist pnode).map (none, ·)
  | .insertAsHead plist pnode => (doubleListInsertAsHead m plist pnode).map (none, ·)
  | .insertBefore plist pbaseNode pnode =>
    (doubleListInsertBefore m plist pbaseNode pnode).map (none, ·)
  | .appendAfter plist pbaseNode pnode =>
    (doubleListAppendAfter m plist pbaseNode pnode).map (none, ·)
  | .remove plist pnode => (doubleListRemove m plist pnode).map (none, ·)
  | .getFromHead plist => doubleListGetFromHead m plist
  | .getFromTail plist => doubleListGetFromTail m plist
  | .appendList plistDes plist => (doubleListAppendList m plistDes plist).map (none, ·)

/-- The same with lists of nodes: what `append_list` appends is no longer in the source. -/
def apply (a : κ → List ν) : Op ν κ → Option ν × (κ → List ν)
  | .appendAsTail plist pnode => (none, Function.update a plist (a plist ++ [pnode]))
  | .insertAsHead plist pnode => (none, Function.update a plist (pnode :: a plist))
  | .insertBefore plist pbaseNode pnode =>
    (none, Function.update a plist ((a plist).insertIdx ((a plist).idxOf pbaseNode) pnode))
  | .appendAfter plist pbaseNode pnode =>
    (none, Function.update a plist ((a plist).insertIdx ((a plist).idxOf pbaseNode + 1) pnode))
  | .remove plist pnode => (none, Function.update a plist ((a plist).erase pnode))
  | .getFromHead plist => ((a plist).head?, Function.update a plist (a plist).tail)
  | .getFromTail plist => ((a plist).getLast?, Function.update a plist (a plist).dropLast)
  | .appendList plistDes plist =>
    (none, Function.update (Function.update a plistDes (a plistDes ++ a plist)) plist [])

def LegalRun (a : κ → List ν) : List (Op ν κ) → Prop
  | [] => True
  | op :: ops => op.Legal a ∧ LegalRun (apply a op).2 ops

def SourcesEmpty (a : κ → List ν) : List (Op ν κ) → Prop
  | [] => True
  | op :: ops => op.SourceEmpty a ∧ SourcesEmpty (apply a op).2 ops

/-- In every state of a run, and the results are the same. -/
def AllShown (m : Memory ν κ) (a : κ → List ν) : List (Op ν κ) → Prop
  | [] => Shows m a
  | op :: ops => Shows m a ∧
    ∃ m', exec m op = some ((apply a op).1, m') ∧ AllShown m' (apply a op).2 ops

/-- **One step.** Each operation does to a list what it does to the sequence. -/
theorem Sound.step (h : Sound m a) (hlegal : op.Legal a) (hempty : op.SourceEmpty a) :
    ∃ m', exec m op = some ((apply a op).1, m') ∧ Sound m' (apply a op).2 := by
  cases op with
  | appendAsTail plist pnode =>
    obtain ⟨m', hm', hr, ht⟩ := appendAsTail_spec (h.represents plist) (hlegal plist)
    refine ⟨m', by simp [exec, apply, hm'], h.update hr ht ?_ (h.notMem_cons hlegal)⟩
    intro v hv
    simpa [or_comm] using hv
  | insertAsHead plist pnode =>
    obtain ⟨m', hm', hr, ht⟩ := insertAsHead_spec (h.represents plist) (hlegal plist)
    exact ⟨m', by simp [exec, apply, hm'], h.update hr ht (fun _ => id) (h.notMem_cons hlegal)⟩
  | insertBefore plist pbaseNode pnode =>
    obtain ⟨l, l', hl, hb⟩ := h.split hlegal.1
    have hrep := h.represents plist
    rw [hl] at hrep
    obtain ⟨m', hm', hr, ht⟩ := insertBefore_spec hrep (hl ▸ hlegal.2 plist)
    refine ⟨m', by simp [exec, apply, hm'], ?_⟩
    simp only [apply, hl, insertIdx_idxOf hb]
    refine h.update hr ht (fun v hv => ?_) (hl ▸ h.notMem_cons hlegal.2)
    simp only [List.mem_append, List.mem_cons] at hv ⊢
    tauto
  | appendAfter plist pbaseNode pnode =>
    obtain ⟨l, l', hl, hb⟩ := h.split hlegal.1
    have hrep := h.represents plist
    rw [hl] at hrep
    obtain ⟨m', hm', hr, ht⟩ := appendAfter_spec hrep (hl ▸ hlegal.2 plist)
    refine ⟨m', by simp [exec, apply, hm'], ?_⟩
    simp only [apply, hl, insertIdx_idxOf_succ hb]
    refine h.update hr ht (fun v hv => ?_) (hl ▸ h.notMem_cons hlegal.2)
    simp only [List.mem_append, List.mem_cons] at hv ⊢
    tauto
  | remove plist pnode =>
    obtain ⟨l, l', hl, hb⟩ := h.split hlegal
    have hrep := h.represents plist
    rw [hl] at hrep
    obtain ⟨m', hm', hr, ht⟩ := remove_spec hrep
    refine ⟨m', by simp [exec, apply, hm'], ?_⟩
    have herase : (l ++ pnode :: l').erase pnode = l ++ l' := by
      rw [List.erase_append_right _ hb, List.erase_cons_head]
    simp only [apply, hl, herase]
    refine h.update hr ht (fun v hv => ?_) (hl ▸ h.notMem)
    simp only [List.mem_append, List.mem_cons] at hv ⊢
    tauto
  | getFromHead plist =>
    obtain ⟨m', hm', hr, ht⟩ := getFromHead_spec (h.represents plist)
    exact ⟨m', hm', h.update hr ht (fun _ => List.mem_of_mem_tail) h.notMem⟩
  | getFromTail plist =>
    obtain ⟨m', hm', hr, ht⟩ := getFromTail_spec (h.represents plist)
    exact ⟨m', hm', h.update hr ht (fun _ => List.mem_of_mem_dropLast) h.notMem⟩
  | appendList plistDes plist =>
    have hsource : a plist = [] := hempty
    have hsame : (apply a (.appendList plistDes plist)).2 = a := by
      have hdes : Function.update a plistDes (a plistDes ++ a plist) = a := by
        rw [hsource, List.append_nil, Function.update_eq_self]
      simp only [apply, hdes]
      exact Function.update_eq_iff.mpr ⟨hsource.symm, fun _ _ => rfl⟩
    have hm : doubleListAppendList m plistDes plist = some m :=
      appendList_empty (h.represents plistDes) (hsource ▸ h.represents plist)
    refine ⟨m, by simp [exec, apply, hm], ?_⟩
    rw [hsame]
    exact h

/-- The count of a source that was not empty stays, and the list is not the empty one. -/
lemma Sound.not_shows (h : Sound m a) (hsource : a plist ≠ [])
    (hm : exec m (.appendList plistDes plist) = some (o, m')) :
    ¬ Shows m' (apply a (.appendList plistDes plist)).2 := by
  intro hshows
  have hnum := hshows.nodesNum plist
  have hlen : (a plist).length ≠ 0 := fun hz => hsource (List.length_eq_zero_iff.mp hz)
  simp only [apply, Function.update_self, List.length_nil] at hnum
  simp only [exec, Option.map_eq_some_iff, Prod.mk.injEq] at hm
  obtain ⟨m₁, hm₁, -, rfl⟩ := hm
  by_cases hne : plistDes = plist
  · subst hne
    rw [appendList_self_nodesNum (h.represents plistDes) hm₁] at hnum
    omega
  · obtain ⟨m₂, hm₂, -, hnum₂, -⟩ := appendList_spec hne (h.represents plistDes)
      (h.represents plist) (h.disjoint plistDes plist hne)
    obtain rfl : m₁ = m₂ := Option.some.inj (hm₁.symm.trans hm₂)
    omega

/-- From any state of the invariant on. -/
lemma Sound.allShown_iff (h : Sound m a) {ops : List (Op ν κ)} (hlegal : LegalRun a ops) :
    AllShown m a ops ↔ SourcesEmpty a ops := by
  induction ops generalizing m a with
  | nil => exact ⟨fun _ => trivial, fun _ => h.shows⟩
  | cons op ops ih =>
    constructor
    · rintro ⟨-, m', hm', hrest⟩
      have hempty : op.SourceEmpty a := by
        cases op with
        | appendList plistDes plist =>
          by_contra hsource
          refine h.not_shows hsource hm' ?_
          cases ops with
          | nil => exact hrest
          | cons op ops => exact hrest.1
        | _ => trivial
      obtain ⟨m₁, hm₁, hsound⟩ := h.step hlegal.1 hempty
      obtain rfl : m₁ = m' := congrArg Prod.snd (Option.some.inj (hm₁.symm.trans hm'))
      exact ⟨hempty, (ih hsound hlegal.2).mp hrest⟩
    · rintro ⟨hempty, hrest⟩
      obtain ⟨m', hm', hsound⟩ := h.step hlegal.1 hempty
      exact ⟨h.shows, m', hm', (ih hsound hlegal.2).mpr hrest⟩

/-- **The lists are sequences** in every state of a run, just if all lists that are appended to
others are empty. -/
theorem doubleList_allShown_iff {m : Memory ν κ}
    (hm : ∀ q, (m.list q).phead = none ∧ (m.list q).nodesNum = 0) {ops : List (Op ν κ)}
    (hlegal : LegalRun (fun _ => []) ops) :
    AllShown m (fun _ => []) ops ↔ SourcesEmpty (fun _ => []) ops := by
  refine Sound.allShown_iff ⟨fun q => ?_, fun _ _ _ => List.disjoint_nil_left _⟩ hlegal
  exact ⟨(hm q).1, (hm q).2, List.nodup_nil, trivial⟩

/-- Two lists in use. -/
theorem doubleList_allShown_two :
    AllShown (⟨⟨fun _ => none, fun _ => none⟩, fun _ => ⟨none, 0⟩⟩ : Memory ℕ Bool) (fun _ => [])
      [.appendAsTail true 1, .insertAsHead true 2, .insertBefore true 1 3, .appendAfter true 1 4,
        .appendList true false, .remove true 3, .getFromTail true, .getFromHead true] := by
  refine (doubleList_allShown_iff (fun _ => ⟨rfl, rfl⟩) ?_).mpr ?_
  · simp [LegalRun, Op.Legal, apply]
  · simp [SourcesEmpty, Op.SourceEmpty, apply]

/-- A list of one node appended to an empty one: the node is in both. -/
theorem doubleList_allShown_append : ¬ ∀ ops : List (Op ℕ Bool), LegalRun (fun _ => []) ops →
    AllShown ⟨⟨fun _ => none, fun _ => none⟩, fun _ => ⟨none, 0⟩⟩ (fun _ => []) ops := by
  intro h
  obtain ⟨-, m', hm', -, m₁, hm₁, hshow⟩ :=
    h [.appendAsTail false 1, .appendList true false] ⟨by simp [Op.Legal], trivial, trivial⟩
  cases hm'
  cases hm₁
  exact absurd (hshow.phead false) (by decide)

/-- An operation as its callers make it: an appended list is made empty by hand. -/
def execReinit (m : Memory ν κ) : Op ν κ → Option (Option ν × Memory ν κ)
  | .appendList plistDes plist =>
    ((doubleListAppendList m plistDes plist).map (doubleListInit · plist)).map (none, ·)
  | op => exec m op

def Op.Apart : Op ν κ → Prop
  | .appendList plistDes plist => plistDes ≠ plist
  | _ => True

lemma mem_appendList {v : ν}
    (hv : v ∈ (apply a (.appendList plistDes plist)).2 q) :
    q ≠ plist ∧ (v ∈ a q ∨ q = plistDes ∧ v ∈ a plist) := by
  simp only [apply] at hv
  by_cases hq : q = plist
  · subst hq
    rw [Function.update_self] at hv
    cases hv
  · rw [Function.update_of_ne hq] at hv
    refine ⟨hq, ?_⟩
    by_cases hq' : q = plistDes
    · subst hq'
      rw [Function.update_self] at hv
      exact (List.mem_append.mp hv).imp id fun hv => ⟨rfl, hv⟩
    · rw [Function.update_of_ne hq'] at hv
      exact .inl hv

lemma Sound.stepReinit (h : Sound m a) (hlegal : op.Legal a) (hapart : op.Apart) :
    ∃ m', execReinit m op = some ((apply a op).1, m') ∧ Sound m' (apply a op).2 := by
  cases op with
  | appendList plistDes plist =>
    have hne : plistDes ≠ plist := hapart
    obtain ⟨m', hm', hdes, hsrc, hlist, hnext, hprev⟩ := appendList_init_spec hne
      (h.represents plistDes) (h.represents plist) (h.disjoint plistDes plist hne)
    refine ⟨m', by simp only [execReinit, hm', Option.map_some]; rfl, fun q => ?_,
      fun q q' hq => ?_⟩
    · simp only [apply]
      by_cases hq : q = plist
      · subst hq
        rw [Function.update_self]
        exact hsrc
      · rw [Function.update_of_ne hq]
        by_cases hq' : q = plistDes
        · subst hq'
          rw [Function.update_self]
          exact hdes
        · rw [Function.update_of_ne hq']
          have hrep := h.represents q
          have hout : ∀ v ∈ a q, v ∉ a plistDes ++ a plist := by
            intro v hv hmem
            rcases List.mem_append.mp hmem with hmem | hmem
            · exact h.notMem q hq' v hv hmem
            · exact h.notMem q hq v hv hmem
          exact ⟨by rw [hlist q hq' hq, hrep.phead], by rw [hlist q hq' hq, hrep.nodesNum],
            hrep.nodup, hrep.ring.congr (fun v hv => hnext v (hout v hv))
              fun v hv => hprev v (hout v hv)⟩
    · intro v hv hv'
      obtain ⟨hqs, hmem | ⟨hdes, hmem⟩⟩ := mem_appendList hv
      · obtain ⟨hqs', hmem' | ⟨hdes', hmem'⟩⟩ := mem_appendList hv'
        · exact h.disjoint q q' hq hmem hmem'
        · exact h.notMem q hqs v hmem hmem'
      · obtain ⟨hqs', hmem' | ⟨hdes', hmem'⟩⟩ := mem_appendList hv'
        · exact h.notMem q' hqs' v hmem' hmem
        · exact hq (hdes.trans hdes'.symm)
  | _ => exact h.step hlegal trivial

/-- The states of a run in which the callers make appended lists empty. -/
def AllShownReinit (m : Memory ν κ) (a : κ → List ν) : List (Op ν κ) → Prop
  | [] => Shows m a
  | op :: ops => Shows m a ∧
    ∃ m', execReinit m op = some ((apply a op).1, m') ∧ AllShownReinit m' (apply a op).2 ops

/-- With the source made empty by hand, the lists are sequences in every run. -/
theorem Sound.allShownReinit (h : Sound m a) {ops : List (Op ν κ)} (hlegal : LegalRun a ops)
    (hapart : ∀ op ∈ ops, op.Apart) : AllShownReinit m a ops := by
  induction ops generalizing m a with
  | nil => exact h.shows
  | cons op ops ih =>
    obtain ⟨m', hm', hsound⟩ := h.stepReinit hlegal.1 (hapart op List.mem_cons_self)
    exact ⟨h.shows, m', hm', ih hsound hlegal.2 fun op hop =>
      hapart op (List.mem_cons_of_mem _ hop)⟩

end SteepSystem.DoubleLists
