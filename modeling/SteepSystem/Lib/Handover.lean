import Mathlib.Tactic

/-!
Items that are handed over through places. One side saves an item in a place that is free. On the
other side a loader takes what it finds in a place and remembers the place, in two steps; its
workers get what has been loaded, one after another, and when one is done with an item it clears
the place first and makes the loader forget it afterwards. In any order of these steps no item is
handed out twice, and none is lost before; but a place that was forgotten before it was remembered
stays remembered for ever.
-/

namespace SteepSystem.Lib.Handover

variable {π μ : Type*}

/-- Where the loader is: a place is read after it was not found remembered, and is remembered after
its item is ready for the workers. -/
inductive Loader (π : Type*)
  | idle
  | reading (pl : π)
  | adding (pl : π)
  deriving DecidableEq

structure State (π μ : Type*) where
  stored : π → Option μ
  loader : Loader π
  used : List π
  taken : List π
  cleared : List π
  hash : List π
  saved : List μ
  handed : List μ

variable {s t : State π μ} {pl : π} {m : μ}

/-- The places of items that have been loaded and are not cleared. -/
def State.active (s : State π μ) : List π := s.used ++ s.taken

structure Inv (s : State π μ) : Prop where
  stored : ∀ pl m, s.stored pl = some m → m ∈ s.saved
  once : ∀ pl pl' m, s.stored pl = some m → s.stored pl' = some m → pl = pl'
  active : ∀ pl ∈ s.active, (s.stored pl).isSome
  nodup : (s.active ++ s.cleared).Nodup
  hashed : ∀ pl ∈ s.active ++ s.cleared, pl ∈ s.hash ∨ s.loader = .adding pl
  reading : ∀ pl, s.loader = .reading pl → pl ∉ s.active ++ s.cleared
  taken : ∀ pl ∈ s.taken, ∀ m, s.stored pl = some m → m ∈ s.handed
  handed : ∀ m ∈ s.handed, m ∈ s.saved ∧ ∀ pl, s.stored pl = some m → pl ∈ s.taken
  kept : ∀ m ∈ s.saved, m ∉ s.handed → ∃ pl, s.stored pl = some m
  handedOnce : s.handed.Nodup

/-- Nobody waits for a free place. -/
lemma Inv.not_active (h : Inv s) (hfree : s.stored pl = none) : pl ∉ s.active := by
  intro hmem
  simpa [hfree] using h.active pl hmem

lemma inv_load (h : Inv s) (hreading : s.loader = .reading pl) (hstored : s.stored pl = some m) :
    Inv { s with loader := .adding pl, used := s.used ++ [pl] } := by
  have hperm : ((s.used ++ [pl]) ++ s.taken ++ s.cleared).Perm (pl :: (s.active ++ s.cleared)) := by
    unfold State.active
    simp
  have hmem {pl' : π} (hmem : pl' ∈ (s.used ++ [pl]) ++ s.taken ++ s.cleared) :
      pl' = pl ∨ pl' ∈ s.active ++ s.cleared := List.mem_cons.mp (hperm.mem_iff.mp hmem)
  refine ⟨h.stored, h.once, fun pl' hpl => ?_, ?_, fun pl' hpl => ?_, by simp, h.taken, h.handed,
    h.kept, h.handedOnce⟩
  · rcases hmem (List.mem_append_left _ hpl) with rfl | hpl'
    · rw [hstored]
      rfl
    · rcases List.mem_append.mp hpl with hpl | hpl
      · rcases List.mem_append.mp hpl with hpl | hpl
        · exact h.active pl' (List.mem_append_left _ hpl)
        · rw [List.mem_singleton.mp hpl, hstored]
          rfl
      · exact h.active pl' (List.mem_append_right _ hpl)
  · exact hperm.nodup_iff.mpr (List.nodup_cons.mpr ⟨h.reading pl hreading, h.nodup⟩)
  · rcases hmem hpl with rfl | hpl
    · exact .inr rfl
    · rcases h.hashed pl' hpl with hpl | hpl
      · exact .inl hpl
      · rw [hreading] at hpl
        cases hpl

lemma inv_get {rest : List π} (h : Inv s) (hused : s.used = pl :: rest)
    (hstored : s.stored pl = some m) :
    Inv { s with used := rest, taken := s.taken ++ [pl], handed := s.handed ++ [m] } := by
  have hperm : (rest ++ (s.taken ++ [pl])).Perm s.active := by
    unfold State.active
    rw [hused, ← List.append_assoc]
    exact List.perm_append_comm
  have hperm' : (rest ++ (s.taken ++ [pl]) ++ s.cleared).Perm (s.active ++ s.cleared) :=
    hperm.append_right _
  have hactive : pl ∈ s.used := hused ▸ List.mem_cons_self
  have hnot : pl ∉ s.taken := by
    have := h.nodup.of_append_left
    unfold State.active at this
    exact fun hmem => (List.disjoint_of_nodup_append this) hactive hmem
  have hnew : m ∉ s.handed := fun hmem => hnot ((h.handed m hmem).2 pl hstored)
  refine ⟨h.stored, h.once, fun pl' hpl => h.active pl' (hperm.mem_iff.mp hpl),
    hperm'.nodup_iff.mpr h.nodup, fun pl' hpl => h.hashed pl' (hperm'.mem_iff.mp hpl),
    fun pl' hloader hpl => h.reading pl' hloader (hperm'.mem_iff.mp hpl), fun pl' hpl m' h' => ?_,
    fun m' hmem => ?_, fun m' hmem hnot' => ?_, ?_⟩
  · rcases List.mem_append.mp hpl with hpl | hpl
    · exact List.mem_append_left _ (h.taken pl' hpl m' h')
    · rw [List.mem_singleton.mp hpl, hstored] at h'
      exact List.mem_append_right _ (by simpa using (Option.some.inj h').symm)
  · rcases List.mem_append.mp hmem with hmem | hmem
    · obtain ⟨hsaved, htaken⟩ := h.handed m' hmem
      exact ⟨hsaved, fun pl' h' => List.mem_append_left _ (htaken pl' h')⟩
    · rw [List.mem_singleton.mp hmem]
      refine ⟨h.stored pl m hstored, fun pl' h' => List.mem_append_right _ ?_⟩
      exact List.mem_singleton.mpr (h.once pl' pl m h' hstored)
  · exact h.kept m' hmem fun hmem => hnot' (List.mem_append_left _ hmem)
  · exact List.nodup_append.mpr ⟨h.handedOnce, List.nodup_singleton m, by
      rintro a ha b hb rfl
      exact hnew (List.mem_singleton.mp hb ▸ ha)⟩

/-- Only the loader and what it remembers change. -/
lemma Inv.loader (h : Inv s) {loader : Loader π} {hash : List π}
    (hhashed : ∀ pl ∈ s.active ++ s.cleared, pl ∈ hash ∨ loader = .adding pl)
    (hreading : ∀ pl, loader = .reading pl → pl ∉ s.active ++ s.cleared) :
    Inv { s with loader, hash } :=
  ⟨h.stored, h.once, h.active, h.nodup, hhashed, hreading, h.taken, h.handed, h.kept, h.handedOnce⟩

/-- Before anything has been saved. -/
lemma inv_empty (hash : List π) :
    Inv (⟨fun _ => none, .idle, [], [], [], hash, [], []⟩ : State π μ) :=
  ⟨by simp, by simp, by simp [State.active], by simp [State.active], by simp [State.active],
    by simp, by simp, by simp, by simp, List.nodup_nil⟩

/-- The place is remembered, and nothing has been loaded from it that would make it forgotten. -/
structure Stuck (s : State π μ) (pl : π) : Prop where
  hash : pl ∈ s.hash
  used : pl ∉ s.used
  taken : pl ∉ s.taken
  cleared : pl ∉ s.cleared
  reading : s.loader ≠ .reading pl

/-- What is in such a place has not been handed out. -/
lemma Stuck.not_handed (h : Stuck s pl) (hinv : Inv s) (hstored : s.stored pl = some m) :
    m ∉ s.handed := fun hmem => h.taken ((hinv.handed m hmem).2 pl hstored)

/-! ### Steps -/

variable [DecidableEq π]

inductive Step : State π μ → State π μ → Prop
  | save {s : State π μ} {pl : π} {m : μ} : s.stored pl = none → m ∉ s.saved →
      Step s { s with stored := Function.update s.stored pl (some m), saved := s.saved ++ [m] }
  | query {s : State π μ} {pl : π} : s.loader = .idle → pl ∉ s.hash →
      Step s { s with loader := .reading pl }
  | giveUp {s : State π μ} {pl : π} : s.loader = .reading pl → Step s { s with loader := .idle }
  | load {s : State π μ} {pl : π} {m : μ} : s.loader = .reading pl → s.stored pl = some m →
      Step s { s with loader := .adding pl, used := s.used ++ [pl] }
  | add {s : State π μ} {pl : π} {hash : List π} : s.loader = .adding pl →
      (∀ pl', pl' ∈ hash ↔ pl' = pl ∨ pl' ∈ s.hash) → Step s { s with loader := .idle, hash }
  | get {s : State π μ} {pl : π} {rest : List π} {m : μ} : s.used = pl :: rest →
      s.stored pl = some m →
      Step s { s with used := rest, taken := s.taken ++ [pl], handed := s.handed ++ [m] }
  | clear {s : State π μ} {pl : π} : pl ∈ s.taken →
      Step s { s with
        stored := Function.update s.stored pl none
        taken := s.taken.erase pl
        cleared := s.cleared ++ [pl] }
  | forget {s : State π μ} {pl : π} : pl ∈ s.cleared →
      Step s { s with hash := s.hash.filter (· ≠ pl), cleared := s.cleared.erase pl }

lemma update_some {pl pl' : π} {x : Option μ} {m : μ}
    (h : Function.update s.stored pl x pl' = some m) :
    (pl' = pl ∧ x = some m) ∨ (pl' ≠ pl ∧ s.stored pl' = some m) := by
  by_cases heq : pl' = pl
  · subst heq
    rw [Function.update_self] at h
    exact .inl ⟨rfl, h⟩
  · rw [Function.update_of_ne heq] at h
    exact .inr ⟨heq, h⟩

lemma inv_save (h : Inv s) (hfree : s.stored pl = none) (hnew : m ∉ s.saved) :
    Inv { s with stored := Function.update s.stored pl (some m), saved := s.saved ++ [m] } := by
  have hnot : pl ∉ s.active := h.not_active hfree
  have hold {pl' : π} {m' : μ} (h' : Function.update s.stored pl (some m) pl' = some m')
      (hm' : m' ≠ m) : s.stored pl' = some m' := by
    rcases update_some h' with ⟨-, heq⟩ | ⟨-, heq⟩
    · exact absurd (Option.some.inj heq).symm hm'
    · exact heq
  have hne {m' : μ} (hmem : m' ∈ s.saved) : m' ≠ m := fun heq => hnew (heq ▸ hmem)
  refine ⟨fun pl' m' h' => ?_, fun pl' pl'' m' h' h'' => ?_, fun pl' hmem => ?_, h.nodup, h.hashed,
    h.reading, fun pl' hmem m' h' => ?_, fun m' hmem => ?_, fun m' hmem hnot' => ?_, h.handedOnce⟩
  · rcases update_some h' with ⟨-, heq⟩ | ⟨-, heq⟩
    · exact List.mem_append_right _ (by simpa using (Option.some.inj heq).symm)
    · exact List.mem_append_left _ (h.stored pl' m' heq)
  · rcases update_some h' with ⟨rfl, heq⟩ | ⟨-, heq⟩ <;>
      rcases update_some h'' with ⟨rfl, heq'⟩ | ⟨-, heq'⟩
    · rfl
    · exact absurd (Option.some.inj heq ▸ h.stored _ _ heq') hnew
    · exact absurd (Option.some.inj heq' ▸ h.stored _ _ heq) hnew
    · exact h.once _ _ _ heq heq'
  · have hpl : pl' ≠ pl := fun heq => hnot (heq ▸ hmem)
    simpa only [Function.update_of_ne hpl] using h.active pl' hmem
  · rcases update_some h' with ⟨rfl, -⟩ | ⟨-, heq⟩
    · exact absurd (List.mem_append_right _ hmem) hnot
    · exact h.taken pl' hmem m' heq
  · obtain ⟨hsaved, htaken⟩ := h.handed m' hmem
    exact ⟨List.mem_append_left _ hsaved, fun pl' h' => htaken pl' (hold h' (hne hsaved))⟩
  · rcases List.mem_append.mp hmem with hmem | hmem
    · obtain ⟨pl', h'⟩ := h.kept m' hmem hnot'
      have hpl : pl' ≠ pl := by
        rintro rfl
        rw [hfree] at h'
        cases h'
      exact ⟨pl', (Function.update_of_ne hpl _ _).trans h'⟩
    · rw [List.mem_singleton.mp hmem]
      exact ⟨pl, Function.update_self _ _ _⟩

lemma inv_clear (h : Inv s) (htaken : pl ∈ s.taken) :
    Inv { s with
      stored := Function.update s.stored pl none
      taken := s.taken.erase pl
      cleared := s.cleared ++ [pl] } := by
  have hperm : ((s.used ++ s.taken.erase pl) ++ (s.cleared ++ [pl])).Perm
      (s.active ++ s.cleared) := by
    have hlast : (s.taken.erase pl ++ (s.cleared ++ [pl])).Perm
        (pl :: (s.taken.erase pl ++ s.cleared)) := by
      rw [← List.append_assoc]
      exact List.perm_append_singleton _ _
    have herase := hlast.trans ((List.perm_cons_erase htaken).symm.append_right s.cleared)
    unfold State.active
    rw [List.append_assoc, List.append_assoc]
    exact herase.append_left _
  have hnodup := hperm.nodup_iff.mpr h.nodup
  have hne {pl' : π} (hmem : pl' ∈ s.used ++ s.taken.erase pl) : pl' ≠ pl := by
    rintro rfl
    exact List.disjoint_of_nodup_append hnodup hmem (by simp)
  have hhanded {m : μ} (hstored : s.stored pl = some m) : m ∈ s.handed :=
    h.taken pl htaken m hstored
  have hold {pl' : π} {m : μ} (h' : Function.update s.stored pl none pl' = some m) :
      pl' ≠ pl ∧ s.stored pl' = some m := by
    rcases update_some h' with ⟨-, heq⟩ | heq
    · cases heq
    · exact heq
  refine ⟨fun pl' m h' => h.stored pl' m (hold h').2,
    fun pl' pl'' m h' h'' => h.once pl' pl'' m (hold h').2 (hold h'').2, fun pl' hmem => ?_, hnodup,
    fun pl' hmem => h.hashed pl' (hperm.mem_iff.mp hmem),
    fun pl' hloader hmem => h.reading pl' hloader (hperm.mem_iff.mp hmem),
    fun pl' hmem m h' => h.taken pl' (List.mem_of_mem_erase hmem) m (hold h').2, fun m hmem => ?_,
    fun m hmem hnot => ?_, h.handedOnce⟩
  · have hactive : pl' ∈ s.active := by
      rcases List.mem_append.mp hmem with hmem | hmem
      · exact List.mem_append_left _ hmem
      · exact List.mem_append_right _ (List.mem_of_mem_erase hmem)
    simpa only [Function.update_of_ne (hne hmem)] using h.active pl' hactive
  · obtain ⟨hsaved, htaken'⟩ := h.handed m hmem
    refine ⟨hsaved, fun pl' h' => ?_⟩
    obtain ⟨hpl, hstored⟩ := hold h'
    exact (List.mem_erase_of_ne hpl).mpr (htaken' pl' hstored)
  · obtain ⟨pl', h'⟩ := h.kept m hmem hnot
    have hpl : pl' ≠ pl := by
      rintro rfl
      exact hnot (hhanded h')
    exact ⟨pl', (Function.update_of_ne hpl _ _).trans h'⟩

lemma inv_forget (h : Inv s) (hcleared : pl ∈ s.cleared) :
    Inv { s with hash := s.hash.filter (· ≠ pl), cleared := s.cleared.erase pl } := by
  have hperm : (pl :: (s.active ++ s.cleared.erase pl)).Perm (s.active ++ s.cleared) :=
    List.perm_middle.symm.trans ((List.perm_cons_erase hcleared).symm.append_left _)
  have hnodup := List.nodup_cons.mp (hperm.nodup_iff.mpr h.nodup)
  have hmem {pl' : π} (hmem : pl' ∈ s.active ++ s.cleared.erase pl) :
      pl' ≠ pl ∧ pl' ∈ s.active ++ s.cleared := by
    refine ⟨?_, hperm.mem_iff.mp (List.mem_cons_of_mem _ hmem)⟩
    rintro rfl
    exact hnodup.1 hmem
  refine ⟨h.stored, h.once, h.active, hnodup.2, fun pl' hpl => ?_,
    fun pl' hloader hpl => h.reading pl' hloader (hmem hpl).2, h.taken, h.handed, h.kept,
    h.handedOnce⟩
  obtain ⟨hne, hold⟩ := hmem hpl
  exact (h.hashed pl' hold).imp_left fun hhash => List.mem_filter.mpr ⟨hhash, by simpa using hne⟩

lemma inv_step (h : Inv s) (hstep : Step s t) : Inv t := by
  cases hstep with
  | save hfree hnew => exact inv_save h hfree hnew
  | query hidle hnot =>
    have hhashed {pl : π} (hpl : pl ∈ s.active ++ s.cleared) : pl ∈ s.hash :=
      (h.hashed pl hpl).resolve_right (by simp [hidle])
    refine h.loader (fun pl hpl => .inl (hhashed hpl)) fun pl hloader hpl => ?_
    cases hloader
    exact hnot (hhashed hpl)
  | giveUp hreading =>
    exact h.loader (fun pl hpl => .inl ((h.hashed pl hpl).resolve_right (by simp [hreading])))
      (by simp)
  | load hreading hstored => exact inv_load h hreading hstored
  | add hadding hhash =>
    refine h.loader (fun pl hpl => .inl ((hhash pl).mpr ?_)) (by simp)
    rcases h.hashed pl hpl with hold | hloader
    · exact .inr hold
    · rw [hadding] at hloader
      cases hloader
      exact .inl rfl
  | get hused hstored => exact inv_get h hused hstored
  | clear htaken => exact inv_clear h htaken
  | forget hcleared => exact inv_forget h hcleared

lemma inv_steps (h : Inv s) (hsteps : Relation.ReflTransGen Step s t) : Inv t := by
  induction hsteps with
  | refl => exact h
  | tail _ hstep ih => exact inv_step ih hstep

lemma stuck_step (h : Stuck s pl) (hstep : Step s t) : Stuck t pl := by
  obtain ⟨hhash, hused, htaken, hcleared, hreading⟩ := h
  cases hstep with
  | save _ _ => exact ⟨hhash, hused, htaken, hcleared, hreading⟩
  | query _ hnot =>
    refine ⟨hhash, hused, htaken, hcleared, fun hloader => ?_⟩
    cases hloader
    exact hnot hhash
  | giveUp _ => exact ⟨hhash, hused, htaken, hcleared, by simp⟩
  | load hpl _ =>
    refine ⟨hhash, fun hmem => ?_, htaken, hcleared, by simp⟩
    rcases List.mem_append.mp hmem with hmem | hmem
    · exact hused hmem
    · exact hreading (List.mem_singleton.mp hmem ▸ hpl)
  | add _ hmem => exact ⟨(hmem pl).mpr (.inr hhash), hused, htaken, hcleared, by simp⟩
  | get hpl _ =>
    rw [hpl, List.mem_cons, not_or] at hused
    exact ⟨hhash, hused.2, by simp [htaken, hused.1], hcleared, hreading⟩
  | clear hpl =>
    refine ⟨hhash, hused, fun hmem => htaken (List.mem_of_mem_erase hmem), fun hmem => ?_, hreading⟩
    rcases List.mem_append.mp hmem with hmem | hmem
    · exact hcleared hmem
    · exact htaken (List.mem_singleton.mp hmem ▸ hpl)
  | forget hpl =>
    refine ⟨List.mem_filter.mpr ⟨hhash, ?_⟩, hused, htaken,
      fun hmem => hcleared (List.mem_of_mem_erase hmem), hreading⟩
    have hne : pl ≠ _ := fun heq => hcleared (heq ▸ hpl)
    simpa using hne

lemma stuck_steps (h : Stuck s pl) (hsteps : Relation.ReflTransGen Step s t) : Stuck t pl := by
  induction hsteps with
  | refl => exact h
  | tail _ hstep ih => exact stuck_step ih hstep

end SteepSystem.Lib.Handover
