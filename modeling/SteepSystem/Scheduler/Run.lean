import SteepSystem.Scheduler.Model

/-!
Across all threads of a server no context is lost, is held twice or is removed from a list that
does not have it; and those who wait to be served are served in their order.
-/

namespace SteepSystem.Scheduler

open SteepSystem.Lib.Places SteepSystem.Lib.Runs

variable {κ α : Type} {p p' : Pool κ α} {place : κ → Place α} {a : Thread α} {c : κ} {q : Queue}

/-! ### The invariant -/

/-- A context is where its place says, and its type tells the list that it is in; it is that of a
polling or an idling context in no other place. -/
structure Sound (p : Pool κ α) (place : κ → Place α) : Prop where
  placed : Placed p.contexts place
  listed : ∀ c q, place c = .list q → (p.ctx c).type = .list q
  held : ∀ c a, place c = .hand a →
    (p.ctx c).type ≠ .list .polling ∧ (p.ctx c).type ≠ .list .idling
  waking : ∀ a c, p.waking a = some c → place c = .list .sleeping
  single : ∀ a b c, p.waking a = some c → p.waking b = some c → a = b
  scan : p.waking .scan = none

namespace Sound

lemma mem (h : Sound p place) {b : Place α} : c ∈ p.contexts b ↔ place c = b := h.placed.mem b c

/-- The type of a context that waits or idles is that of the list it is in. -/
lemma place_of_type (h : Sound p place) (hq : q = .polling ∨ q = .idling)
    (ht : (p.ctx c).type = .list q) : place c = .list q := by
  cases hplace : place c with
  | list q' =>
    have hlisted := h.listed c q' hplace
    rw [ht] at hlisted
    cases hlisted
    rfl
  | hand a =>
    obtain ⟨hpolling, hidling⟩ := h.held c a hplace
    rcases hq with rfl | rfl
    · exact absurd ht hpolling
    · exact absurd ht hidling

lemma not_waking (h : Sound p place) (hq : place c ≠ .list .sleeping) (a : Thread α) :
    p.waking a ≠ some c :=
  fun ha => hq (h.waking a c ha)

variable [DecidableEq κ]

/-- A context keeps its place and gets another type that fits. -/
lemma retyped (h : Sound p place) {x : ScheduleContext} (hc : place c = .hand a)
    (hx : x.type ≠ .list .polling ∧ x.type ≠ .list .idling) : Sound (p.setContext c x) place := by
  refine ⟨h.placed, fun d q hd => ?_, fun d a hd => ?_, h.waking, h.single, h.scan⟩
  · have hdc : d ≠ c := by
      rintro rfl
      rw [hc] at hd
      cases hd
    change (Function.update p.ctx c x d).type = _
    rw [Function.update_of_ne hdc]
    exact h.listed d q hd
  · change (Function.update p.ctx c x d).type ≠ _ ∧ (Function.update p.ctx c x d).type ≠ _
    by_cases hdc : d = c
    · subst hdc
      rw [Function.update_self]
      exact hx
    · rw [Function.update_of_ne hdc]
      exact h.held d a hd

variable [DecidableEq α]

/-- Some contexts of a box that nobody is waking up are moved, and get a type that fits. -/
lemma movedAll (h : Sound p place) {b b' : Place α} (hne : b ≠ b') {kept moved : List κ}
    (hkept : kept.Nodup) (hmoved : moved.Nodup)
    (hmem : ∀ c, c ∈ p.contexts b ↔ c ∈ kept ∨ c ∈ moved) (hdisjoint : ∀ c ∈ kept, c ∉ moved)
    (hwaking : ∀ c ∈ moved, ∀ a, p.waking a ≠ some c) {ctx : κ → ScheduleContext}
    (hsame : ∀ c, c ∉ moved → ctx c = p.ctx c)
    (hlisted : ∀ c ∈ moved, ∀ q, b' = .list q → (ctx c).type = .list q)
    (hheld : ∀ c ∈ moved, ∀ a, b' = .hand a →
      (ctx c).type ≠ .list .polling ∧ (ctx c).type ≠ .list .idling) :
    Sound { p with
      ctx
      contexts := Function.update (Function.update p.contexts b kept) b' (p.contexts b' ++ moved) }
      fun c => if c ∈ moved then b' else place c := by
  refine ⟨h.placed.moveAll hne hkept hmoved hmem hdisjoint, fun c q hc => ?_, fun c a hc => ?_,
    fun a c ha => ?_, h.single, h.scan⟩
  · by_cases hcm : c ∈ moved
    · rw [if_pos hcm] at hc
      exact hlisted c hcm q hc
    · rw [if_neg hcm] at hc
      exact (congrArg ScheduleContext.type (hsame c hcm)).trans (h.listed c q hc)
  · by_cases hcm : c ∈ moved
    · rw [if_pos hcm] at hc
      exact hheld c hcm a hc
    · rw [if_neg hcm] at hc
      dsimp only
      rw [hsame c hcm]
      exact h.held c a hc
  · have hcm : c ∉ moved := fun hcm => hwaking c hcm a ha
    rw [if_neg hcm]
    exact h.waking a c ha

/-- One context is moved. -/
lemma moved (h : Sound p place) (b b' : Place α) (hne : b ≠ b') (hc : c ∈ p.contexts b)
    (hwaking : ∀ a, p.waking a ≠ some c) {x : ScheduleContext}
    (hlisted : ∀ q, b' = .list q → x.type = .list q)
    (hheld : ∀ a, b' = .hand a → x.type ≠ .list .polling ∧ x.type ≠ .list .idling) :
    ∃ place', Sound ((p.move b b' c).setContext c x) place' := by
  have hnodup := h.placed.nodup b
  refine ⟨_, h.movedAll hne (hnodup.erase c) (List.nodup_singleton c) (fun d => ?_) (fun d hd => ?_)
    (fun d hd => ?_) (fun d hd => ?_) (fun d hd q hq => ?_) fun d hd a ha => ?_⟩
  · by_cases hd : d = c
    · simp [hd, hc]
    · simp [hd, List.mem_erase_of_ne hd]
  · rintro hd'
    obtain rfl := List.mem_singleton.mp hd'
    exact hnodup.not_mem_erase hd
  · obtain rfl := List.mem_singleton.mp hd
    exact hwaking
  · exact Function.update_of_ne (by simpa using hd) _ _
  · obtain rfl := List.mem_singleton.mp hd
    rw [Function.update_self]
    exact hlisted q hq
  · obtain rfl := List.mem_singleton.mp hd
    rw [Function.update_self]
    exact hheld a ha

/-! ### The steps -/

lemma getContext (h : Sound p place) (a : Thread α) (q : Queue) :
    ∃ place', Sound (p.getContext a q) place' := by
  unfold Pool.getContext
  split_ifs with hq
  · cases hl : p.contexts (.list q) with
    | nil => exact ⟨place, h⟩
    | cons c l =>
      have hc : c ∈ p.contexts (.list q) := by simp [hl]
      have hplace := h.mem.mp hc
      have htype := h.listed c q hplace
      have hmoved := h.moved (.list q) (.hand a) (x := p.ctx c) (by simp) hc
        (h.not_waking (by rw [hplace]; rcases hq with rfl | rfl <;> simp))
        (fun q' hq' => by cases hq') fun a' _ => by
          rw [htype]
          rcases hq with rfl | rfl <;> simp
      have hsame : (p.move (.list q) (.hand a) c).setContext c (p.ctx c) =
          p.move (.list q) (.hand a) c := by
        have := Function.update_eq_self c p.ctx
        simp only [Pool.setContext, Pool.move, this]
      rw [hsame] at hmoved
      exact hmoved
  · exact ⟨place, h⟩

lemma putContext (h : Sound p place) (hc : c ∈ p.contexts (.hand a)) (q : Queue) (ctl : EpollCtl) :
    ∃ place', Sound (p.putContext a c q ctl) place' := by
  have hplace := h.mem.mp hc
  have hmoved := h.moved (.hand a) (.list q) (x := ⟨.list q, Pool.putWaiting (p.ctx c) q ctl⟩)
    (by simp) hc (h.not_waking (by rw [hplace]; simp)) (fun q' hq' => by cases hq'; rfl)
    fun a' ha' => by cases ha'
  exact hmoved

/-- Where the type says so, the node is in the list. -/
lemma switch (h : Sound p place) (hq : q = .polling ∨ q = .idling)
    (ht : (p.ctx c).type = .list q) (a : Thread α) :
    ∃ p', p.switch q a c = some p' ∧ ∃ place', Sound p' place' := by
  have hplace := h.place_of_type hq ht
  have hc := h.mem.mpr hplace
  have hmoved := h.moved (.list q) (.hand a) (x := { p.ctx c with type := .switching }) (by simp) hc
    (h.not_waking (by rw [hplace]; rcases hq with rfl | rfl <;> simp))
    (fun q' hq' => by cases hq') fun a' _ => ⟨nofun, nofun⟩
  refine ⟨_, ?_, hmoved⟩
  rw [Pool.switch, Pool.removeNode, if_pos hc]
  rfl

lemma wakeRemoves (h : Sound p place) (ha : p.waking a = some c) :
    ∃ p', p.step (.wakeRemoves a) = some p' ∧ ∃ place', Sound p' place' := by
  have hplace := h.waking a c ha
  have hc := h.mem.mpr hplace
  have htype := h.listed c _ hplace
  refine ⟨{ p.move (.list .sleeping) (.hand a) c with
    waking := Function.update p.waking a none }, ?_, Function.update place c (.hand a), ?_⟩
  · rw [Pool.step, ha]
    simp only [Pool.removeNode, if_pos hc, Option.map_some]
    rfl
  · refine ⟨h.placed.move (by simp) hc, fun d q hd => ?_, fun d b hd => ?_, fun b d hd => ?_,
      fun b b' d hb hb' => ?_, ?_⟩
    · by_cases hdc : d = c
      · subst hdc
        rw [Function.update_self] at hd
        cases hd
      · rw [Function.update_of_ne hdc] at hd
        exact h.listed d q hd
    · by_cases hdc : d = c
      · subst hdc
        change (p.ctx d).type ≠ _ ∧ (p.ctx d).type ≠ _
        rw [htype]
        simp
      · rw [Function.update_of_ne hdc] at hd
        exact h.held d b hd
    · dsimp only at hd
      by_cases hba : b = a
      · subst hba
        rw [Function.update_self] at hd
        cases hd
      · rw [Function.update_of_ne hba] at hd
        have hdc : d ≠ c := by
          rintro rfl
          exact hba (h.single b a d hd ha)
        rw [Function.update_of_ne hdc]
        exact h.waking b d hd
    · dsimp only at hb hb'
      by_cases hba : b = a
      · subst hba
        rw [Function.update_self] at hb
        cases hb
      · by_cases hba' : b' = a
        · subst hba'
          rw [Function.update_self] at hb'
          cases hb'
        · rw [Function.update_of_ne hba] at hb
          rw [Function.update_of_ne hba'] at hb'
          exact h.single b b' d hb hb'
    · have hscan : (Thread.scan : Thread α) ≠ a := by
        rintro rfl
        rw [h.scan] at ha
        cases ha
      change Function.update p.waking a none .scan = none
      rw [Function.update_of_ne hscan]
      exact h.scan

omit [DecidableEq κ] in
lemma wakeSees (h : Sound p place) (hscan : a ≠ .scan) (htype : (p.ctx c).type = .list .sleeping)
    (hfree : ∀ b, p.waking b ≠ some c ∧ c ∉ p.contexts (.hand b)) :
    Sound { p with waking := Function.update p.waking a (some c) } place := by
  have hplace : place c = .list .sleeping := by
    cases hp : place c with
    | list q =>
      have := h.listed c q hp
      rw [htype] at this
      cases this
      rfl
    | hand b => exact absurd (h.mem.mpr hp) (hfree b).2
  refine ⟨h.placed, h.listed, h.held, fun b d hd => ?_, fun b b' d hb hb' => ?_, ?_⟩
  · dsimp only at hd
    by_cases hba : b = a
    · subst hba
      rw [Function.update_self] at hd
      obtain rfl := Option.some.inj hd
      exact hplace
    · rw [Function.update_of_ne hba] at hd
      exact h.waking b d hd
  · dsimp only at hb hb'
    by_cases hba : b = a
    · by_cases hba' : b' = a
      · exact hba.trans hba'.symm
      · subst hba
        rw [Function.update_self] at hb
        rw [Function.update_of_ne hba'] at hb'
        obtain rfl := Option.some.inj hb
        exact absurd hb' (hfree b').1
    · by_cases hba' : b' = a
      · subst hba'
        rw [Function.update_self] at hb'
        rw [Function.update_of_ne hba] at hb
        obtain rfl := Option.some.inj hb'
        exact absurd hb (hfree b).1
      · rw [Function.update_of_ne hba] at hb
        rw [Function.update_of_ne hba'] at hb'
        exact h.single b b' d hb hb'
  · change Function.update p.waking a (some c) .scan = none
    rw [Function.update_of_ne (Ne.symm hscan)]
    exact h.scan

/-! ### The scan -/

lemma scanPolling (h : Sound p place) (expired removed : κ → Bool) :
    ∃ place', Sound (p.scanPolling expired removed) place' := by
  have hnodup := h.placed.nodup (.list .polling)
  rw [scanPolling_eq hnodup]
  refine ⟨_, h.movedAll (by simp) (hnodup.filter _) (hnodup.filter _) (fun c => ?_)
    (fun c hc => ?_) (fun c hc => h.not_waking ?_) (fun c hc => if_neg hc)
    (fun c hc q hq => by cases hq) fun c hc a _ => ?_⟩
  · cases ht : taken expired removed p.ctx c <;> simp [ht]
  · simp only [List.mem_filter, Bool.not_eq_true'] at hc
    simp [hc.2]
  · rw [h.mem.mp (List.mem_filter.mp hc).1]
    simp
  · rw [if_pos hc]
    exact ⟨nofun, nofun⟩

/-- A whole box is moved. -/
lemma moveAll (h : Sound p place) {b b' : Place α} (hne : b ≠ b') (hb : b ≠ .list .sleeping)
    {t : ContextType} (hlisted : ∀ q, b' = .list q → t = .list q)
    (hheld : ∀ a, b' = .hand a → t ≠ .list .polling ∧ t ≠ .list .idling) :
    ∃ place', Sound (p.moveAll b b' t) place' := by
  refine ⟨_, h.movedAll hne List.nodup_nil (h.placed.nodup b) (fun c => by simp)
    (fun c hc => by simp at hc) (fun c hc => h.not_waking ?_) (fun c hc => if_neg hc)
    (fun c hc q hq => ?_) fun c hc a ha => ?_⟩
  · rw [h.mem.mp hc]
    exact hb
  · rw [if_pos hc]
    exact hlisted q hq
  · rw [if_pos hc]
    exact hheld a ha

omit [DecidableEq κ] [DecidableEq α] in
lemma init {contextList : List κ} (hnodup : contextList.Nodup) (hall : ∀ c, c ∈ contextList) :
    Sound (Pool.init contextList : Pool κ α) fun _ => .list .free where
  placed := by
    refine ⟨fun b => ?_, fun b c => ?_⟩
    · unfold Pool.init
      dsimp only
      split
      · exact hnodup
      · exact List.nodup_nil
    · unfold Pool.init
      dsimp only
      split
      · simp [hall]
      · rename_i hb
        exact iff_of_false List.not_mem_nil fun h => hb h.symm
  listed c q hq := by
    cases hq
    rfl
  held c a ha := by cases ha
  waking a c ha := by cases ha
  single a b c ha := by cases ha
  scan := rfl

/-- **One step**: what the threads do finds each node in the list that it is removed from. -/
lemma step (h : Sound p place) {e : Event κ α} (hadm : p.Admits e) :
    ∃ p', p.step e = some p' ∧ ∃ place', Sound p' place' := by
  cases e with
  | getContext a q result => exact ⟨_, rfl, h.getContext a q⟩
  | construct a c =>
    exact ⟨_, rfl, _, h.retyped (h.mem.mp hadm.2) ⟨nofun, nofun⟩⟩
  | putContext a c q ctl => exact ⟨_, rfl, h.putContext hadm.2 q ctl⟩
  | epollEvent c =>
    rw [Pool.step]
    split_ifs with htype hwaiting
    · exact ⟨_, rfl, place, h⟩
    · exact ⟨_, rfl, place, h⟩
    · exact h.switch (.inl rfl) (not_not.mp htype) .epoll
  | scanPolling expired removed => exact ⟨_, rfl, h.scanPolling expired removed⟩
  | scanIdling =>
    exact ⟨_, rfl, h.moveAll (by simp) (by simp) (fun q hq => by cases hq)
      fun a _ => ⟨nofun, nofun⟩⟩
  | scanTurning temp =>
    exact ⟨_, rfl, h.moveAll (by simp) (by simp) (fun q hq => by cases hq; rfl)
      fun a ha => by cases ha⟩
  | signal a c =>
    rw [Pool.step]
    split_ifs with htype
    · exact ⟨_, rfl, place, h⟩
    · exact h.switch (.inr rfl) (not_not.mp htype) a
  | wakeSees a c => exact ⟨_, rfl, place, h.wakeSees hadm.1 hadm.2.1 hadm.2.2.2⟩
  | wakeRemoves a =>
    obtain ⟨c, ha⟩ := Option.ne_none_iff_exists'.mp hadm
    exact h.wakeRemoves ha
  | activate a c =>
    rw [Pool.step]
    split_ifs with htype
    · exact ⟨_, rfl, place, h⟩
    · exact h.switch (.inl rfl) (not_not.mp htype) a

end Sound

variable [DecidableEq κ] [DecidableEq α]

/-! ### Runs -/

/-- Each context is in one place, once; its type tells its list; and whatever the threads do next
finds the nodes that it removes. -/
structure Intact (p : Pool κ α) : Prop where
  existsUnique : ∀ c, ∃! b, c ∈ p.contexts b
  nodup : ∀ b, (p.contexts b).Nodup
  listed : ∀ c q, c ∈ p.contexts (.list q) → (p.ctx c).type = .list q
  polling : ∀ c, (p.ctx c).type = .list .polling → c ∈ p.contexts (.list .polling)
  idling : ∀ c, (p.ctx c).type = .list .idling → c ∈ p.contexts (.list .idling)
  removes : ∀ e, p.Admits e → (p.step e).isSome

lemma Sound.intact (h : Sound p place) : Intact p where
  existsUnique := h.placed.existsUnique
  nodup := h.placed.nodup
  listed c q hc := h.listed c q (h.mem.mp hc)
  polling _ hc := h.mem.mpr (h.place_of_type (.inl rfl) hc)
  idling _ hc := h.mem.mpr (h.place_of_type (.inr rfl) hc)
  removes e he := by
    obtain ⟨p', hp', -⟩ := h.step he
    rw [hp']
    rfl

variable {contextList : List κ} {events : List (Event κ α)}

lemma sound_of_steps (hnodup : contextList.Nodup) (hall : ∀ c, c ∈ contextList)
    (h : Steps (Pool.init contextList : Pool κ α) events p) : ∃ place, Sound p place := by
  refine Run.invariant (I := fun p : Pool κ α => ∃ place, Sound p place)
    (fun p e p' hp hadm hstep => ?_) h ⟨_, Sound.init hnodup hall⟩
  obtain ⟨place, hplace⟩ := hp
  obtain ⟨p'', hp'', hplace'⟩ := hplace.step hadm
  obtain rfl := Option.some.inj (hp''.symm.trans hstep)
  exact hplace'

/-- **No context is lost or held twice**, whatever the threads of the server do in whatever
order. -/
theorem intact_of_steps (hnodup : contextList.Nodup) (hall : ∀ c, c ∈ contextList)
    (h : Steps (Pool.init contextList : Pool κ α) events p) : Intact p := by
  obtain ⟨place, hplace⟩ := sound_of_steps hnodup hall h
  exact hplace.intact

/-- A listener takes a connection. -/
def accepted (c : Bool) : List (Event Bool Unit) :=
  [.getContext (.other ()) .free (some c), .construct (.other ()) c,
    .putContext (.other ()) c .polling .ok]

/-- The pool behind it. -/
def connected : Pool Bool Unit :=
  (((Pool.init [false, true]).getContext (.other ()) .free).setType false .constructing).putContext
    (.other ()) false .polling .ok

lemma steps_accepted : Steps (Pool.init [false, true]) (accepted false) connected :=
  .cons ⟨by decide, rfl⟩ rfl (.cons ⟨by decide, by decide⟩ rfl
    (.cons ⟨by decide, by decide⟩ rfl (.nil _)))

theorem intact_of_accepted : Intact connected :=
  intact_of_steps (by decide) (by decide) steps_accepted

/-! ### The order of service -/

/-- The context that a thread is given to serve. -/
def Event.served : Event κ α → List κ
  | .getContext _ .turning result => result.toList
  | _ => []

/-- The contexts that come to wait for that. -/
def Event.queued : Event κ α → List κ
  | .putContext _ c .turning _ => [c]
  | .scanTurning temp => temp
  | _ => []

lemma contexts_move (p : Pool κ α) {b b' d : Place α} (c : κ) (hd : d ≠ b) (hd' : d ≠ b') :
    (p.move b b' c).contexts d = p.contexts d := by
  simp [Pool.move, Function.update_of_ne hd, Function.update_of_ne hd']

lemma contexts_switch {d : Place α} (h : p.switch q a c = some p') (hd : d ≠ .list q)
    (hd' : d ≠ .hand a) : p'.contexts d = p.contexts d := by
  obtain ⟨p₁, hp₁, rfl⟩ := Option.map_eq_some_iff.mp h
  obtain ⟨-, hp₁⟩ := Option.ite_none_right_eq_some.mp hp₁
  obtain rfl := Option.some.inj hp₁
  exact contexts_move p c hd hd'

/-- What the wake-up moves. -/
lemma contexts_wakeRemoves {d : Place α} (h : p.step (.wakeRemoves a) = some p')
    (hd : d ≠ .list .sleeping) (hd' : d ≠ .hand a) : p'.contexts d = p.contexts d := by
  rw [Pool.step] at h
  cases hw : p.waking a with
  | none =>
    rw [hw] at h
    obtain rfl := Option.some.inj h
    rfl
  | some c =>
    rw [hw] at h
    obtain ⟨p₁, hp₁, rfl⟩ := Option.map_eq_some_iff.mp h
    obtain ⟨-, hp₁⟩ := Option.ite_none_right_eq_some.mp hp₁
    obtain rfl := Option.some.inj hp₁
    exact contexts_move p c hd hd'

/-- A step takes from the list of those who wait at its head, and adds at its end. -/
lemma Sound.turning (h : Sound p place) {e : Event κ α} (hadm : p.Admits e)
    (hstep : p.step e = some p') :
    p.contexts (.list .turning) ++ e.queued = e.served ++ p'.contexts (.list .turning) := by
  have hsame (hqueued : e.queued = []) (hserved : e.served = [])
      (heq : p'.contexts (.list .turning) = p.contexts (.list .turning)) :
      p.contexts (.list .turning) ++ e.queued = e.served ++ p'.contexts (.list .turning) := by
    rw [hqueued, hserved, heq, List.append_nil, List.nil_append]
  cases e with
  | getContext a q result =>
    obtain ⟨-, rfl⟩ := hadm
    obtain rfl := Option.some.inj hstep
    by_cases hq : q = .turning
    · subst hq
      have hnil : (Event.getContext a .turning (p.gets .turning)).queued = [] := rfl
      rw [hnil, List.append_nil]
      cases hl : p.contexts (.list .turning) with
      | nil => simp [Event.served, Pool.gets, Pool.getContext, hl]
      | cons c l => simp [Event.served, Pool.gets, Pool.getContext, Pool.move, hl]
    · refine hsame rfl ?_ ?_
      · cases q with
        | turning => exact absurd rfl hq
        | _ => rfl
      · unfold Pool.getContext
        split_ifs
        · split
          · rfl
          · exact contexts_move p _ (by simpa using Ne.symm hq) (by simp)
        · rfl
  | construct a c =>
    obtain rfl := Option.some.inj hstep
    exact hsame rfl rfl rfl
  | putContext a c q ctl =>
    obtain rfl := Option.some.inj hstep
    by_cases hq : q = .turning
    · subst hq
      simp [Event.queued, Event.served, Pool.putContext, Pool.move, Pool.setContext]
    · refine hsame ?_ rfl ?_
      · cases q with
        | turning => exact absurd rfl hq
        | _ => rfl
      · exact contexts_move (p.setContext c _) c (by simp) (by simpa using Ne.symm hq)
  | epollEvent c =>
    rw [Pool.step] at hstep
    split_ifs at hstep
    · obtain rfl := Option.some.inj hstep
      exact hsame rfl rfl rfl
    · obtain rfl := Option.some.inj hstep
      exact hsame rfl rfl rfl
    · exact hsame rfl rfl (contexts_switch hstep (by simp) (by simp))
  | scanPolling expired removed =>
    obtain rfl := Option.some.inj hstep
    refine hsame rfl rfl ?_
    rw [scanPolling_eq (h.placed.nodup _)]
    simp
  | scanIdling =>
    obtain rfl := Option.some.inj hstep
    exact hsame rfl rfl (by simp [Pool.moveAll])
  | scanTurning temp =>
    obtain rfl := Option.some.inj hstep
    obtain rfl : temp = p.contexts (.hand .scan) := hadm
    simp [Event.queued, Event.served, Pool.moveAll]
  | signal a c =>
    rw [Pool.step] at hstep
    split_ifs at hstep
    · obtain rfl := Option.some.inj hstep
      exact hsame rfl rfl rfl
    · exact hsame rfl rfl (contexts_switch hstep (by simp) (by simp))
  | wakeSees a c =>
    obtain rfl := Option.some.inj hstep
    exact hsame rfl rfl rfl
  | wakeRemoves a => exact hsame rfl rfl (contexts_wakeRemoves hstep (by simp) (by simp))
  | activate a c =>
    rw [Pool.step] at hstep
    split_ifs at hstep
    · obtain rfl := Option.some.inj hstep
      exact hsame rfl rfl rfl
    · exact hsame rfl rfl (contexts_switch hstep (by simp) (by simp))

/-- **Contexts are served in the order in which they come to wait**: those that have been waiting
or have come since are those that have been served, in this order, and those that still wait. -/
theorem served_in_order (hnodup : contextList.Nodup) (hall : ∀ c, c ∈ contextList)
    (h : Steps (Pool.init contextList : Pool κ α) events p) :
    events.flatMap Event.queued = events.flatMap Event.served ++ p.contexts (.list .turning) := by
  have hgeneral : ∀ {p p' : Pool κ α} {events}, Steps p events p' → (∃ place, Sound p place) →
      p.contexts (.list .turning) ++ events.flatMap Event.queued =
        events.flatMap Event.served ++ p'.contexts (.list .turning) := by
    intro p p' events h
    induction h with
    | nil p => intro _; simp
    | cons hadm hstep _ ih =>
      rintro ⟨place, hplace⟩
      obtain ⟨p'', hp'', hplace'⟩ := hplace.step hadm
      obtain rfl := Option.some.inj (hp''.symm.trans hstep)
      rw [List.flatMap_cons, List.flatMap_cons, ← List.append_assoc, hplace.turning hadm hstep,
        List.append_assoc, ih hplace', List.append_assoc]
  have hstart : (Pool.init contextList : Pool κ α).contexts (.list .turning) = [] := rfl
  have := hgeneral h ⟨_, Sound.init hnodup hall⟩
  rwa [hstart, List.nil_append] at this

/-- An event of the connection comes, and a thread is given it to serve. -/
def turned (c : Bool) : List (Event Bool Unit) :=
  [.epollEvent c, .putContext .epoll c .turning .ok, .getContext (.other ()) .turning (some c)]

theorem served_in_order_turned :
    ∃ p, Steps (Pool.init [false, true] : Pool Bool Unit) (accepted false ++ turned false) p ∧
      [false] = [false] ++ p.contexts (.list .turning) := by
  have hturned : Steps connected (turned false) _ :=
    .cons trivial rfl (.cons ⟨by decide, by decide⟩ rfl (.cons ⟨by decide, rfl⟩ rfl (.nil _)))
  have hsteps := steps_accepted.append hturned
  exact ⟨_, hsteps, served_in_order (by decide) (by decide) hsteps⟩

/-! ### The scan serves those who idle -/

end SteepSystem.Scheduler
