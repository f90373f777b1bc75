import SteepSystem.Daemons.Locker

/-!
The lock service refines the locks that are passed on first come, first served.
-/

namespace SteepSystem.Daemons.Locker

open SteepSystem.Lib SteepSystem.Lib.Runs SteepSystem.Lib.FifoLocks

/-- The service seen as locks: the owners are the connections that hold a resource, the table has
the queues of the resources that have an owner, and each node that has been taken from a queue
has one thread that hands it over. -/
structure Refines (s : Service) (l : Locks Resource Connection) : Prop where
  tight : l.Tight
  keyed : s.table.Keyed
  held : ∀ r c, (s.node c).Holds r ↔ l.owner r = some c
  entry : ∀ r, s.table.query r = (l.owner r).map fun _ => l.queue r
  waits : ∀ r c, c ∈ l.queue r ↔ (s.node c).Waits r
  nodup : ∀ r, (l.queue r).Nodup
  handed : ∀ w, (s.node w).phase = .granted ↔ ∃ c after, (s.node c).phase = .handing w after
  once : ∀ c c' w after after', (s.node c).phase = .handing w after →
    (s.node c').phase = .handing w after' → c = c'

variable {s t : Service} {l : Locks Resource Connection} {c d w : Connection} {r : Resource}
  {n : Node} {outs : List Output} {after : After} {maxInterval now : ℤ}

namespace Service

@[simp] lemma set_table : (s.set c n).table = s.table := rfl

lemma set_node : (s.set c n).node d = if d = c then n else s.node d := Function.update_apply ..

@[simp] lemma set_node_self : (s.set c n).node c = n := Function.update_self ..

lemma set_set_node {m : Node} :
    ((s.set w m).set c n).node d = if d = c then n else if d = w then m else s.node d := by
  rw [set_node, set_node]

end Service

/-- The node takes no part in a hand-over. -/
def Node.Still (n : Node) : Prop := n.phase ≠ .granted ∧ ∀ w after, n.phase ≠ .handing w after

/-- One node changes, with the table and the locks, outside of a hand-over. -/
lemma Refines.change {l' : Locks Resource Connection} {table : HashTable Resource (List Connection)}
    (h : Refines s l) (htight : l'.Tight) (hkeyed : table.Keyed)
    (hentry : ∀ r, table.query r = (l'.owner r).map fun _ => l'.queue r)
    (hheld : ∀ r d, (if d = c then n else s.node d).Holds r ↔ l'.owner r = some d)
    (hwaits : ∀ r d, d ∈ l'.queue r ↔ (if d = c then n else s.node d).Waits r)
    (hnodup : ∀ r, (l'.queue r).Nodup) (hold : (s.node c).Still) (hnew : n.Still) :
    Refines ({ s with table }.set c n) l' := by
  have hhanding : ∀ d w after, (({ s with table }.set c n).node d).phase = .handing w after ↔
      (s.node d).phase = .handing w after := by
    intro d w after
    rw [Service.set_node]
    split_ifs with hd
    · subst hd
      exact iff_of_false (hnew.2 w after) (hold.2 w after)
    · rfl
  constructor
  · exact htight
  · exact hkeyed
  · intro r d
    rw [Service.set_node]
    exact hheld r d
  · exact hentry
  · intro r d
    rw [Service.set_node]
    exact hwaits r d
  · exact hnodup
  · intro w
    simp only [hhanding]
    rw [← h.handed, Service.set_node]
    split_ifs with hd
    · subst hd
      exact iff_of_false hnew.1 hold.1
    · rfl
  · intro d d' w a a' hd hd'
    rw [hhanding] at hd hd'
    exact h.once d d' w a a' hd hd'

/-- The node has nothing to do with a lock. -/
def Node.apart (n : Node) : Bool :=
  match n.phase with
  | .closed | .retrying _ | .unlocked _ => true
  | .reading => !n.isLocking
  | .waiting | .granted | .handing _ _ => false

lemma Node.not_holds (h : n.apart) (r : Resource) : ¬ n.Holds r := by
  unfold Node.apart at h
  unfold Node.Holds
  cases hp : n.phase <;> simp_all

lemma Node.not_waits (h : n.apart) (r : Resource) : ¬ n.Waits r := by
  unfold Node.apart at h
  unfold Node.Waits
  cases hp : n.phase <;> simp_all

lemma Node.still (h : n.apart) : n.Still := by
  unfold Node.apart at h
  unfold Node.Still
  cases hp : n.phase <;> simp_all

/-- A node that has nothing to do with a lock changes. -/
lemma Refines.apart (h : Refines s l) (hold : (s.node c).apart) (hnew : n.apart) :
    Refines (s.set c n) l := by
  refine h.change h.tight h.keyed h.entry ?_ ?_ h.nodup (Node.still hold) (Node.still hnew)
  · intro r d
    rw [← h.held]
    split_ifs with hd
    · subst hd
      exact iff_of_false (Node.not_holds hnew r) (Node.not_holds hold r)
    · rfl
  · intro r d
    rw [h.waits]
    split_ifs with hd
    · subst hd
      exact iff_of_false (Node.not_waits hold r) (Node.not_waits hnew r)
    · rfl

/-- The connection gets a new entry of the table. -/
lemma Refines.acquired {table : HashTable Resource (List Connection)} (h : Refines s l)
    (hold : (s.node c).apart) (hquery : s.table.query r = none)
    (htable : table = ⟨s.table.capacity, s.table.items ++ [(r, [])]⟩) :
    ∃ l', l.Step (.acquired r c) l' ∧ Refines (s.acquire c r now table).1 l' := by
  have hfree : l.owner r = none := by
    rw [h.entry, Option.map_eq_none_iff] at hquery
    exact hquery
  have hstep := Locks.Step.acquired (c := c) hfree
  refine ⟨_, hstep, h.change (h.tight.step hstep) ?_ ?_ ?_ ?_ h.nodup (Node.still hold)
    ⟨by simp, by simp⟩⟩
  · rw [htable]
    exact h.keyed.append hquery
  · intro r'
    rw [htable, HashTable.query_append hquery]
    simp only [Function.update_apply]
    split_ifs with hr
    · rw [hr, h.tight r hfree]
      rfl
    · exact h.entry r'
  · intro r' d
    simp only [Function.update_apply]
    split_ifs with hd hr hr
    · subst hd hr
      simp [Node.Holds]
    · subst hd
      rw [← h.held]
      exact iff_of_false (fun hh => hr hh.1.symm) (Node.not_holds hold r')
    · subst hr
      rw [h.held, hfree]
      simp [Ne.symm hd]
    · exact h.held r' d
  · intro r' d
    simp only
    rw [h.waits]
    split_ifs with hd
    · subst hd
      exact iff_of_false (Node.not_waits hold r') (by simp [Node.Waits])
    · rfl

/-- The connection is put behind those that wait already. -/
lemma Refines.queued {q : List Connection} (h : Refines s l) (hold : (s.node c).apart)
    (hquery : s.table.query r = some q) :
    ∃ l', l.Step (.queued r c) l' ∧
      Refines ({ s with table := s.table.store r (q ++ [c]) }.set c
        { s.node c with resource := r, phase := .waiting }) l' := by
  have hentry := hquery
  rw [h.entry, Option.map_eq_some_iff] at hentry
  obtain ⟨o, ho, hq⟩ := hentry
  have hstep := Locks.Step.queued (c := c) (l := l) (r := r) (by simp [ho])
  have hnew : c ∉ l.queue r := fun hc => Node.not_waits hold r ((h.waits r c).mp hc)
  refine ⟨_, hstep, h.change (h.tight.step hstep) ?_ ?_ ?_ ?_ ?_ (Node.still hold)
    ⟨by simp, by simp⟩⟩
  · rw [HashTable.Keyed, HashTable.keys_store]
    exact h.keyed
  · intro r'
    rw [HashTable.query_store, hquery]
    simp only [Function.update_apply]
    split_ifs with hr
    · rw [hr, ho, hq]
      rfl
    · exact h.entry r'
  · intro r' d
    rw [← h.held]
    split_ifs with hd
    · subst hd
      exact iff_of_false (by simp [Node.Holds]) (Node.not_holds hold r')
    · rfl
  · intro r' d
    simp only [Function.update_apply]
    split_ifs with hr hd hd
    · subst hd hr
      simp [Node.Waits]
    · subst hr
      simp [hd, h.waits]
    · subst hd
      rw [h.waits]
      exact iff_of_false (Node.not_waits hold r') fun hw => hr hw.1.symm
    · exact h.waits r' d
  · intro r'
    simp only [Function.update_apply]
    split_ifs with hr
    · refine List.Nodup.append (h.nodup r) (List.nodup_singleton c) ?_
      simpa using hnew
    · exact h.nodup r'

/-- The connection gives its resource up, and nobody waits for it. -/
lemma Refines.released (h : Refines s l) (hold : (s.node c).Holds r)
    (hphase : (s.node c).phase = .reading) (hquery : s.table.query r = some []) :
    ∃ l', l.Step (.released r) l' ∧
      Refines ({ s with table := s.table.remove r }.set c
        { s.node c with phase := .unlocked after }) l' := by
  have howner := (h.held r c).mp hold
  have hempty : l.queue r = [] := by
    rw [h.entry, howner] at hquery
    exact Option.some.inj hquery
  have hstep := Locks.Step.released (l := l) hempty
  refine ⟨_, hstep, h.change (h.tight.step hstep) h.keyed.remove ?_ ?_ ?_ h.nodup
    ⟨by simp [hphase], by simp [hphase]⟩ ⟨by simp, by simp⟩⟩
  · intro r'
    rw [HashTable.query_remove h.keyed]
    simp only [Function.update_apply]
    split_ifs with hr
    · rfl
    · exact h.entry r'
  · intro r' d
    simp only [Function.update_apply]
    split_ifs with hd hr hr
    · simp [Node.Holds]
    · subst hd
      rw [← h.held]
      exact iff_of_false (by simp [Node.Holds]) fun hh => hr (hh.1.symm.trans hold.1)
    · subst hr
      rw [h.held, howner]
      simp [Ne.symm hd]
    · exact h.held r' d
  · intro r' d
    rw [h.waits]
    split_ifs with hd
    · subst hd
      exact iff_of_false (by simp [Node.Waits, hphase]) (by simp [Node.Waits])
    · rfl

/-- The connection gives its resource up, and the first of those that wait gets it. -/
lemma Refines.passed {q : List Connection} (h : Refines s l) (hold : (s.node c).Holds r)
    (hphase : (s.node c).phase = .reading) (hquery : s.table.query r = some (w :: q)) :
    ∃ l', l.Step (.passed r w) l' ∧
      Refines (({ s with table := s.table.store r q }.set w
        { s.node w with phase := .granted }).set c
          { s.node c with phase := .handing w after }) l' := by
  have howner := (h.held r c).mp hold
  have hqueue : l.queue r = w :: q := by
    rw [h.entry, howner] at hquery
    exact Option.some.inj hquery
  have hwaits : (s.node w).Waits r := (h.waits r w).mp (by rw [hqueue]; exact List.mem_cons_self)
  have hne : c ≠ w := by
    rintro rfl
    rw [hwaits.2] at hphase
    cases hphase
  have hnodup := h.nodup r
  rw [hqueue, List.nodup_cons] at hnodup
  have hnone : ∀ d after', (s.node d).phase ≠ .handing w after' := by
    intro d after' hd
    have := (h.handed w).mpr ⟨d, after', hd⟩
    rw [hwaits.2] at this
    cases this
  have hhanding : ∀ d w' after', ((({ s with table := s.table.store r q }.set w
      { s.node w with phase := .granted }).set c
        { s.node c with phase := .handing w after }).node d).phase = .handing w' after' →
      d = c ∧ w' = w ∨ (s.node d).phase = .handing w' after' := by
    intro d w' after' hd
    rw [Service.set_set_node] at hd
    split_ifs at hd with hc hw
    · exact Or.inl ⟨hc, (Phase.handing.inj hd).1.symm⟩
    · exact Or.inr hd
  have hstep := Locks.Step.passed hqueue
  refine ⟨_, hstep, h.tight.step hstep, ?_, ?_, ?_, ?_, ?_, ?_, ?_⟩
  · rw [Service.set_table, Service.set_table, HashTable.Keyed, HashTable.keys_store]
    exact h.keyed
  · intro r' d
    rw [Service.set_set_node]
    simp only [Function.update_apply]
    by_cases hc : d = c
    · subst hc
      rw [if_pos rfl]
      refine iff_of_false (by simp [Node.Holds]) fun ho => ?_
      split_ifs at ho with hr
      · exact hne (Option.some.inj ho).symm
      · exact hr (((h.held r' d).mpr ho).1.symm.trans hold.1)
    · rw [if_neg hc]
      by_cases hw : d = w
      · subst hw
        rw [if_pos rfl]
        split_ifs with hr
        · simp [Node.Holds, hwaits.1, hr]
        · rw [← h.held]
          exact iff_of_false (fun hh => hr (hh.1.symm.trans hwaits.1))
            (by simp [Node.Holds, hwaits.2])
      · rw [if_neg hw, h.held]
        split_ifs with hr
        · rw [hr, howner]
          simp [Ne.symm hc, Ne.symm hw]
        · rfl
  · intro r'
    rw [Service.set_table, Service.set_table, HashTable.query_store, hquery]
    simp only [Function.update_apply]
    split_ifs with hr
    · rfl
    · exact h.entry r'
  · intro r' d
    rw [Service.set_set_node]
    simp only [Function.update_apply]
    have hq : (d ∈ if r' = r then q else l.queue r') ↔ d ≠ w ∧ d ∈ l.queue r' := by
      split_ifs with hr
      · rw [hr, hqueue, List.mem_cons]
        exact ⟨fun hd => ⟨fun he => hnodup.1 (he ▸ hd), Or.inr hd⟩, fun hd => hd.2.resolve_left hd.1⟩
      · refine ⟨fun hd => ⟨fun he => hr ?_, hd⟩, And.right⟩
        exact ((h.waits r' d).mp hd).1.symm.trans (he ▸ hwaits.1)
    rw [hq, h.waits]
    split_ifs with hc hw
    · subst hc
      exact iff_of_false (fun hd => by simp [Node.Waits, hphase] at hd) (by simp [Node.Waits])
    · exact iff_of_false (fun hd => hd.1 hw) (by simp [Node.Waits])
    · exact and_iff_right hw
  · intro r'
    simp only [Function.update_apply]
    split_ifs with hr
    · exact hnodup.2
    · exact h.nodup r'
  · intro w'
    constructor
    · intro hg
      by_cases hw : w' = w
      · exact ⟨c, after, by rw [hw, Service.set_node_self]⟩
      · rw [Service.set_set_node] at hg
        split_ifs at hg
        obtain ⟨d, after', hd⟩ := (h.handed w').mp hg
        refine ⟨d, after', ?_⟩
        rw [Service.set_set_node]
        split_ifs with hc hdw
        · rw [hc, hphase] at hd
          cases hd
        · rw [hdw, hwaits.2] at hd
          cases hd
        · exact hd
    · rintro ⟨d, after', hd⟩
      rw [Service.set_set_node]
      rcases hhanding d w' after' hd with ⟨-, rfl⟩ | hd'
      · rw [if_neg (Ne.symm hne), if_pos rfl]
      · have hg := (h.handed w').mpr ⟨d, after', hd'⟩
        rw [if_neg, if_neg]
        · exact hg
        · rintro rfl
          exact hnone d after' hd'
        · rintro rfl
          rw [hphase] at hg
          cases hg
  · intro d d' w' a a' hd hd'
    rcases hhanding d w' a hd with ⟨rfl, rfl⟩ | hd1
    · rcases hhanding d' w' a' hd' with ⟨rfl, -⟩ | hd2
      · rfl
      · exact absurd hd2 (hnone d' a')
    · rcases hhanding d' w' a' hd' with ⟨rfl, rfl⟩ | hd2
      · exact absurd hd1 (hnone d a)
      · exact h.once d d' w' a a' hd1 hd2

/-- The node that has been taken from the queue gets its thread back. -/
lemma Refines.handOver (h : Refines s l) (hphase : (s.node c).phase = .handing w after) :
    Refines ((s.set w { s.node w with isLocking := true, lockTime := now, phase := .reading }).set c
      { s.node c with phase := .unlocked after }) l := by
  have hw := (h.handed w).mpr ⟨c, after, hphase⟩
  have hne : c ≠ w := by
    rintro rfl
    rw [hw] at hphase
    cases hphase
  have hhanding : ∀ d w' after', (((s.set w
      { s.node w with isLocking := true, lockTime := now, phase := .reading }).set c
        { s.node c with phase := .unlocked after }).node d).phase = .handing w' after' ↔
      d ≠ c ∧ (s.node d).phase = .handing w' after' := by
    intro d w' after'
    rw [Service.set_set_node]
    split_ifs with hc hdw
    · simp [hc]
    · rw [hdw, hw]
      simp
    · exact (and_iff_right hc).symm
  refine ⟨h.tight, h.keyed, ?_, h.entry, ?_, h.nodup, ?_, ?_⟩
  · intro r d
    rw [← h.held, Service.set_set_node]
    split_ifs with hc hdw
    · rw [hc]
      exact iff_of_false (by simp [Node.Holds]) (by simp [Node.Holds, hphase])
    · rw [hdw]
      simp [Node.Holds, hw]
    · rfl
  · intro r d
    rw [h.waits, Service.set_set_node]
    split_ifs with hc hdw
    · rw [hc]
      exact iff_of_false (by simp [Node.Waits, hphase]) (by simp [Node.Waits])
    · rw [hdw]
      exact iff_of_false (by simp [Node.Waits, hw]) (by simp [Node.Waits])
    · rfl
  · intro w'
    simp only [hhanding]
    rw [Service.set_set_node]
    split_ifs with hc hdw
    · refine iff_of_false (by simp) ?_
      rintro ⟨d, after', -, hd⟩
      have := (h.handed w').mpr ⟨d, after', hd⟩
      rw [hc, hphase] at this
      cases this
    · refine iff_of_false (by simp) ?_
      rintro ⟨d, after', hdc, hd⟩
      exact hdc (h.once d c w' after' after hd (hdw ▸ hphase))
    · rw [h.handed]
      refine exists₂_congr fun d after' => ?_
      refine (and_iff_right_of_imp fun hd hdc => hdw ?_).symm
      rw [hdc, hphase] at hd
      exact (Phase.handing.inj hd).1.symm
  · intro d d' w' a a' hd hd'
    exact h.once d d' w' a a' ((hhanding d w' a).mp hd).2 ((hhanding d' w' a').mp hd').2

/-! ### The Steps -/

/-- What a step shows of the locks. -/
def movesOf (outs : List Output) : List (Move Resource Connection) := outs.filterMap Output.move?

@[simp] lemma movesOf_append (outs more : List Output) :
    movesOf (outs ++ more) = movesOf outs ++ movesOf more := List.filterMap_append ..

/-- The state reached is again one of the locks, which have moved as the step shows. -/
def Follows (l : Locks Resource Connection) (result : Service × List Output) : Prop :=
  ∃ l', l.Moves (movesOf result.2) l' ∧ Refines result.1 l'

lemma follows_of_refines (h : Refines t l) (houts : movesOf outs = []) : Follows l (t, outs) :=
  ⟨l, by rw [houts]; exact .nil l, h⟩

lemma follows_of_step {m : Move Resource Connection}
    (h : ∃ l', l.Step m l' ∧ Refines t l') (houts : movesOf outs = [m]) : Follows l (t, outs) := by
  obtain ⟨l', hstep, href⟩ := h
  refine ⟨l', ?_, href⟩
  rw [houts]
  exact .cons trivial hstep (.nil l')

lemma strHashAdd_eq_one {table table' : HashTable Resource (List Connection)} {allocates : Bool}
    (h : strHashAdd table allocates r = (1, table')) :
    table.query r = none ∧ table' = ⟨table.capacity, table.items ++ [(r, [])]⟩ := by
  unfold strHashAdd at h
  split_ifs at h with hfull
  · simp at h
  · unfold HashTable.add at h
    split_ifs at h with hroom hkey
    · simp at h
    · simp at h
    · simp only [Prod.mk.injEq, true_and] at h
      exact ⟨by simpa using hkey, h.symm⟩

lemma Refines.lock {allocates : Bool} (h : Refines s l) (hold : (s.node c).apart) :
    Follows l (s.lock c r now allocates) := by
  unfold Service.lock
  cases hquery : s.table.query r with
  | none =>
    simp only
    split_ifs with hadd
    · have hone := strHashAdd_eq_one (r := r) (Prod.ext hadd rfl)
      exact follows_of_step (h.acquired hold hone.1 hone.2) rfl
    · exact follows_of_refines (h.apart hold rfl) rfl
  | some q => exact follows_of_step (h.queued hold hquery) rfl

/-- A connection that holds its resource finds the entry, and gives the resource up. -/
lemma Refines.unlockResource (after : After) (h : Refines s l) (hphase : (s.node c).phase = .reading)
    (hlock : (s.node c).isLocking) :
    ∃ result, s.unlockResource c after = some result ∧ Follows l result := by
  have hold : (s.node c).Holds (s.node c).resource := ⟨rfl, Or.inr ⟨hphase, hlock⟩⟩
  have howner := (h.held _ c).mp hold
  have hquery := h.entry (s.node c).resource
  rw [howner, Option.map_some] at hquery
  unfold Service.unlockResource
  cases hq : l.queue (s.node c).resource with
  | nil =>
    rw [hq] at hquery
    simp only [hquery]
    exact ⟨_, rfl, follows_of_step (h.released hold hphase hquery) rfl⟩
  | cons w q =>
    rw [hq] at hquery
    simp only [hquery]
    exact ⟨_, rfl, follows_of_step (h.passed hold hphase hquery) rfl⟩

lemma Refines.close (h : Refines s l) (hold : (s.node c).apart) : Refines (s.close c) l :=
  h.apart hold rfl

/-- `thread_work_func` on a line has a result, which follows the locks. -/
lemma Refines.command (line : List UInt8) (allocates : Bool) (h : Refines s l)
    (hphase : (s.node c).phase = .reading) :
    ∃ result, s.command maxInterval c line now allocates = some result ∧ Follows l result := by
  unfold Service.command
  simp only
  by_cases hlock : (s.node c).isLocking
  · rw [if_pos hlock]
    split_ifs
    · exact h.unlockResource _ hphase hlock
    · exact h.unlockResource _ hphase hlock
    · exact h.unlockResource _ hphase hlock
    · exact ⟨_, rfl, follows_of_refines h rfl⟩
  · rw [if_neg hlock]
    have hold : (s.node c).apart := by simpa [Node.apart, hphase] using hlock
    split_ifs
    · exact ⟨_, rfl, h.lock hold⟩
    · exact ⟨_, rfl, follows_of_refines h rfl⟩
    · exact ⟨_, rfl, follows_of_refines (h.close hold) rfl⟩
    · exact ⟨_, rfl, follows_of_refines h rfl⟩

lemma Refines.proceed (h : Refines s l) (hphase : (s.node c).phase = .unlocked after) :
    Follows l (s.proceed c after) := by
  have hold : (s.node c).apart := by simp [Node.apart, hphase]
  cases after with
  | unlock | expired => exact follows_of_refines (h.apart hold rfl) rfl
  | quit | hangup => exact follows_of_refines (h.close hold) rfl

/-- The step lemma. -/
lemma Refines.step {e : Event} (h : Refines s l) (hst : s.step maxInterval e = some (t, outs)) :
    Follows l (t, outs) := by
  cases e with
  | connect c =>
    simp only [Service.step] at hst
    split_ifs at hst with hphase
    cases hst
    exact follows_of_refines (h.apart (by simp [Node.apart, hphase]) rfl) rfl
  | line c line now allocates =>
    simp only [Service.step] at hst
    split_ifs at hst with hphase
    obtain ⟨result, hresult, hfollows⟩ := h.command line allocates hphase
    rw [hresult] at hst
    cases hst
    exact hfollows
  | hangup c =>
    simp only [Service.step] at hst
    split_ifs at hst with hphase hlock
    · obtain ⟨result, hresult, hfollows⟩ := h.unlockResource .hangup hphase hlock
      rw [hresult] at hst
      cases hst
      exact hfollows
    · cases hst
      exact follows_of_refines (h.close (by simpa [Node.apart, hphase] using hlock)) rfl
  | retry c now allocates =>
    simp only [Service.step] at hst
    split at hst
    · rename_i since hphase
      have hold : (s.node c).apart := by simp [Node.apart, hphase]
      split_ifs at hst with hadd htime
      · cases hst
        have hone := strHashAdd_eq_one (r := (s.node c).resource) (Prod.ext hadd rfl)
        exact follows_of_step (h.acquired hold hone.1 hone.2) rfl
      · cases hst
        exact follows_of_refines (h.close hold) rfl
      · cases hst
        exact follows_of_refines h rfl
    · cases hst
  | handOver c now =>
    simp only [Service.step] at hst
    split at hst
    · rename_i w after hphase
      have hw := (h.handed w).mpr ⟨c, after, hphase⟩
      have hne : c ≠ w := by
        rintro rfl
        rw [hw] at hphase
        cases hphase
      cases hst
      rw [Service.set_node, if_neg hne]
      exact follows_of_refines (h.handOver hphase) rfl
    · cases hst
  | proceed c =>
    simp only [Service.step] at hst
    split at hst
    · rename_i after hphase
      rw [← Option.some.inj hst]
      exact h.proceed hphase
    · cases hst

lemma refines_start (tableSize : ℕ) : Refines (.start tableSize) .free := by
  constructor
  · exact Locks.tight_free
  · exact List.nodup_nil
  · intro r c
    exact iff_of_false (by simp [Service.start, Node.Holds]) (by simp [Locks.free])
  · intro r
    rfl
  · intro r c
    exact iff_of_false (by simp [Locks.free]) (by simp [Service.start, Node.Waits])
  · intro r
    exact List.nodup_nil
  · intro w
    simp [Service.start]
  · intro c c' w after after' h
    simp [Service.start] at h

/-! ### The Runs -/

/-- A run of the service, in which the outputs are kept. -/
abbrev Runs (maxInterval : ℤ) (s : Service × List Output) (events : List Event)
    (t : Service × List Output) : Prop :=
  Run (fun _ _ => True)
    (fun s e t => ∃ outs, s.1.step maxInterval e = some (t.1, outs) ∧ t.2 = s.2 ++ outs) s events t

variable {tableSize : ℕ} {events : List Event} {log : List Output}

lemma runs_cons {e : Event} {u : Service × List Output}
    (hst : s.step maxInterval e = some (t, outs)) (h : Runs maxInterval (t, log ++ outs) events u) :
    Runs maxInterval (s, log) (e :: events) u :=
  .cons trivial ⟨outs, hst, rfl⟩ h

/-- **The refinement**: what a run shows of the locks is a run of locks that are passed on first
come, first served, and ends where the service is. -/
theorem refines_of_run (h : Runs maxInterval (.start tableSize, []) events (s, log)) :
    Follows .free (s, log) := by
  refine Run.invariant (I := fun s => Follows .free s) ?_ h
    (follows_of_refines (refines_start tableSize) rfl)
  rintro ⟨s, log⟩ e ⟨t, log'⟩ ⟨l, hmoves, href⟩ - ⟨outs, hst, hlog⟩
  obtain ⟨l', hmore, href'⟩ := href.step hst
  refine ⟨l', ?_, href'⟩
  simp only at hlog
  rw [hlog, movesOf_append]
  exact hmoves.append hmore

/-- A thread that has a line, or has lost its client, goes on: there is an entry for the resource
that it gives up. -/
theorem isSome_of_run {line : List UInt8} {allocates : Bool}
    (h : Runs maxInterval (.start tableSize, []) events (s, log))
    (hphase : (s.node c).phase = .reading) :
    (s.step maxInterval (.line c line now allocates)).isSome ∧
      (s.step maxInterval (.hangup c)).isSome := by
  obtain ⟨l, -, href⟩ := refines_of_run h
  constructor
  · obtain ⟨result, hresult, -⟩ := href.command line allocates hphase
    rw [Service.step, if_pos hphase, hresult]
    rfl
  · rw [Service.step, if_pos hphase]
    split_ifs with hlock
    · obtain ⟨result, hresult, -⟩ := href.unlockResource .hangup hphase hlock
      rw [hresult]
      rfl
    · rfl

/-- **The service is a service of locks.** In every state of every run one connection at most holds
a resource, a resource is in the table exactly if it is held, the connections have got a resource
in the order in which they have asked for it, and those that have not got it are in its list, each
once; and a connection that has been taken from the list has a thread that hands it over. -/
theorem locks_of_run (h : Runs maxInterval (.start tableSize, []) events (s, log)) :
    (∀ r c c', (s.node c).Holds r → (s.node c').Holds r → c = c') ∧
    (∀ r, (s.table.query r).isSome ↔ ∃ c, (s.node c).Holds r) ∧
    (∀ r, (movesOf log).filterMap (Move.asked r) =
      (movesOf log).filterMap (Move.got r) ++ (s.table.query r).getD []) ∧
    (∀ r, ((s.table.query r).getD []).Nodup ∧
      ∀ c, c ∈ (s.table.query r).getD [] ↔ (s.node c).Waits r) ∧
    ∀ w, (s.node w).phase = .granted → ∃ c after, (s.node c).phase = .handing w after := by
  obtain ⟨l, hmoves, href⟩ := refines_of_run h
  have hqueue : ∀ r, (s.table.query r).getD [] = l.queue r := by
    intro r
    rw [href.entry]
    cases ho : l.owner r with
    | none => exact (href.tight r ho).symm
    | some c => rfl
  refine ⟨?_, ?_, ?_, ?_, fun w => (href.handed w).mp⟩
  · intro r c c' hc hc'
    rw [href.held] at hc hc'
    exact Option.some.inj (hc.symm.trans hc')
  · intro r
    rw [href.entry, Option.isSome_map, Option.isSome_iff_exists]
    exact exists_congr fun c => (href.held r c).symm
  · intro r
    rw [hqueue]
    exact Locks.first_come hmoves r
  · intro r
    rw [hqueue]
    exact ⟨href.nodup r, href.waits r⟩

/-- The second of two clients waits, and gets the resource when the first one unlocks it. -/
theorem locks_of_handOver : ∃ s log,
    Runs 180 (.start 10, []) [.connect 1, .connect 2, .line 1 (CStrings.bytes "LOCK a") 0 true,
      .line 2 (CStrings.bytes "lock a") 5 true, .line 1 (CStrings.bytes "UNLOCK") 9 true,
      .handOver 1 9] (s, log) ∧
    ∀ c, (s.node c).Holds (CStrings.bytes "a") → c = 2 := by
  have hrun : Runs 180 (.start 10, []) [.connect 1, .connect 2,
      .line 1 (CStrings.bytes "LOCK a") 0 true, .line 2 (CStrings.bytes "lock a") 5 true,
      .line 1 (CStrings.bytes "UNLOCK") 9 true, .handOver 1 9] (_, _) :=
    runs_cons rfl (runs_cons rfl (runs_cons rfl (runs_cons rfl (runs_cons rfl (runs_cons rfl
      (.nil _))))))
  exact ⟨_, _, hrun, fun c hc => (locks_of_run hrun).1 _ c 2 hc ⟨rfl, Or.inr ⟨rfl, rfl⟩⟩⟩

end SteepSystem.Daemons.Locker
