import Mathlib.Tactic

/-!
Trees given by the parent of each node, with a label on every node: the path from the root to a
node, and what becomes of the paths when one node gets another parent or another label.
-/

namespace SteepSystem.Lib.TreePaths

variable {κ β : Type*} {T : κ → Option (κ × β)} {root f g h : κ} {c d e : List (κ × β)} {n : β}

/-- The nodes from a child of the root down to a node, each with its label. -/
inductive Path (T : κ → Option (κ × β)) (root : κ) : κ → List (κ × β) → Prop
  | top {f : κ} {n : β} : T f = some (root, n) → Path T root f [(f, n)]
  | sub {f p : κ} {n : β} {c : List (κ × β)} :
      T f = some (p, n) → p ≠ root → Path T root p c → Path T root f (c ++ [(f, n)])

lemma Path.ne_nil (hp : Path T root f c) : c ≠ [] := by
  cases hp with
  | top _ => exact List.cons_ne_nil _ _
  | sub _ _ _ => exact List.concat_ne_nil _ _

lemma Path.unique (hp : Path T root f c) (hp' : Path T root f d) : c = d := by
  induction hp generalizing d with
  | top hf =>
    cases hp' with
    | top hf' =>
      obtain ⟨-, rfl⟩ := Prod.mk.inj (Option.some.inj (hf.symm.trans hf'))
      rfl
    | sub hf' hne _ =>
      obtain ⟨rfl, -⟩ := Prod.mk.inj (Option.some.inj (hf.symm.trans hf'))
      exact absurd rfl hne
  | sub hf hne _ ih =>
    cases hp' with
    | top hf' =>
      obtain ⟨rfl, -⟩ := Prod.mk.inj (Option.some.inj (hf.symm.trans hf'))
      exact absurd rfl hne
    | sub hf' _ hp' =>
      obtain ⟨rfl, rfl⟩ := Prod.mk.inj (Option.some.inj (hf.symm.trans hf'))
      rw [ih hp']

/-- A path ends at its node. -/
lemma Path.exists_last (hp : Path T root f c) : ∃ d n, c = d ++ [(f, n)] := by
  cases hp with
  | top _ => exact ⟨[], _, rfl⟩
  | sub _ _ _ => exact ⟨_, _, rfl⟩

/-- A first part of a path is the path of the node it ends at. -/
lemma Path.of_append (hp : Path T root f (c ++ (g, n) :: d)) : Path T root g (c ++ [(g, n)]) := by
  generalize hall : c ++ (g, n) :: d = all at hp
  induction hp generalizing d with
  | top hf =>
    cases c with
    | nil =>
      obtain ⟨hfst, -⟩ := List.cons.inj hall
      obtain ⟨rfl, rfl⟩ := Prod.mk.inj hfst
      exact .top hf
    | cons x c => exact absurd (List.cons.inj hall).2 (by simp)
  | @sub f p m c' hf hne hp ih =>
    rcases List.eq_nil_or_concat' d with rfl | ⟨d, x, rfl⟩
    · obtain ⟨rfl, hlast⟩ := List.append_inj' hall rfl
      obtain ⟨hfst, -⟩ := List.cons.inj hlast
      obtain ⟨rfl, rfl⟩ := Prod.mk.inj hfst
      exact .sub hf hne hp
    · rw [← List.cons_append, ← List.append_assoc] at hall
      exact ih (List.append_inj' hall rfl).1

lemma Path.of_mem (hp : Path T root f c) (hg : (g, n) ∈ c) :
    ∃ d e, c = d ++ e ∧ Path T root g d ∧ d.getLast? = some (g, n) := by
  obtain ⟨d, e, rfl⟩ := List.mem_iff_append.mp hg
  exact ⟨d ++ [(g, n)], e, by simp, hp.of_append, by simp⟩

/-- No node is met twice. -/
lemma Path.nodup (hp : Path T root f c) : (c.map Prod.fst).Nodup := by
  induction hp with
  | top _ => exact List.nodup_singleton _
  | @sub f p n c hf hne hp ih =>
    rw [List.map_append, List.map_singleton]
    refine List.Nodup.append ih (List.nodup_singleton _) ?_
    intro g hg hg'
    obtain rfl := List.mem_singleton.mp hg'
    obtain ⟨⟨g, m⟩, hmem, rfl⟩ := List.mem_map.mp hg
    obtain ⟨d, e, rfl, hd, -⟩ := hp.of_mem hmem
    have hlen := congrArg List.length (hd.unique (.sub hf hne hp))
    simp only [List.length_append, List.length_singleton] at hlen
    omega

/-- The labels of a path are those of its nodes. -/
lemma Path.label (hp : Path T root f c) (hg : (g, n) ∈ c) : ∃ p, T g = some (p, n) := by
  induction hp with
  | top hf =>
    obtain ⟨rfl, rfl⟩ := Prod.mk.inj (List.mem_singleton.mp hg)
    exact ⟨root, hf⟩
  | sub hf _ _ ih =>
    rcases List.mem_append.mp hg with hg | hg
    · exact ih hg
    · obtain ⟨rfl, rfl⟩ := Prod.mk.inj (List.mem_singleton.mp hg)
      exact ⟨_, hf⟩

lemma Path.exists_parent (hp : Path T root f c) : ∃ p n, T f = some (p, n) ∧
    (p = root ∧ c = [(f, n)] ∨ p ≠ root ∧ ∃ d, Path T root p d ∧ c = d ++ [(f, n)]) := by
  cases hp with
  | top hf => exact ⟨root, _, hf, .inl ⟨rfl, rfl⟩⟩
  | sub hf hne hp => exact ⟨_, _, hf, .inr ⟨hne, _, hp, rfl⟩⟩

/-- A path through a node is the path of the node and a rest below it. -/
lemma Path.split (hp : Path T root h c) (hf : f ∈ c.map Prod.fst) :
    ∃ d e, c = d ++ e ∧ Path T root f d ∧ f ∉ e.map Prod.fst := by
  obtain ⟨⟨g, n⟩, hmem, rfl⟩ := List.mem_map.mp hf
  obtain ⟨d, e, rfl, hd, hlast⟩ := hp.of_mem hmem
  refine ⟨d, e, rfl, hd, ?_⟩
  have hnodup := hp.nodup
  rw [List.map_append] at hnodup
  refine fun hg => List.disjoint_of_nodup_append hnodup ?_ hg
  exact List.mem_map.mpr ⟨_, List.mem_of_getLast? hlast, rfl⟩

/-! ### One node changed -/

variable [DecidableEq κ] {v : Option (κ × β)}

lemma Path.update_of_notMem (hp : Path T root h c) (hf : f ∉ c.map Prod.fst) :
    Path (Function.update T f v) root h c := by
  induction hp with
  | @top h n hh =>
    have hne : h ≠ f := by
      rintro rfl
      exact hf (by simp)
    exact .top (by rw [Function.update_of_ne hne, hh])
  | @sub h p n c hh hroot hp ih =>
    rw [List.map_append, List.mem_append, not_or] at hf
    have hne : h ≠ f := by
      rintro rfl
      exact hf.2 (by simp)
    exact .sub (by rw [Function.update_of_ne hne, hh]) hroot (ih hf.1)

/-- The paths through the node changed begin with its new path. -/
lemma Path.rebase (hp : Path T root h (d ++ e)) (hd : Path T root f d)
    (hf : f ∉ e.map Prod.fst) (hd' : Path (Function.update T f v) root f c) :
    Path (Function.update T f v) root h (c ++ e) := by
  induction e using List.reverseRecOn generalizing h with
  | nil =>
    rw [List.append_nil] at hp ⊢
    obtain ⟨d₀, n, hlast⟩ := hp.exists_last
    obtain ⟨d₁, m, hlast'⟩ := hd.exists_last
    have hh : h = f := by
      have := (List.append_inj' (hlast.symm.trans hlast') rfl).2
      exact (Prod.mk.inj (List.cons.inj this).1).1
    rwa [hh]
  | append_singleton e x ih =>
    rw [List.map_append, List.mem_append, not_or] at hf
    rw [← List.append_assoc] at hp ⊢
    obtain ⟨p, n, hh, ⟨-, hc⟩ | ⟨hne, d', hp', hc⟩⟩ := hp.exists_parent
    · have hlen := congrArg List.length hc
      have hpos := List.length_pos_iff.mpr hd.ne_nil
      simp only [List.length_append, List.length_singleton] at hlen
      omega
    · obtain ⟨rfl, hx⟩ := List.append_inj' hc rfl
      obtain ⟨rfl, -⟩ := List.cons.inj hx
      have hne' : h ≠ f := by
        rintro rfl
        exact hf.2 (by simp)
      exact .sub (by rw [Function.update_of_ne hne', hh]) hne (ih hp' hf.1)

/-- The labels along a path, by which the nodes with a path are told apart. -/
def Distinct (T : κ → Option (κ × β)) (root : κ) : Prop :=
  ∀ f g c d, Path T root f c → Path T root g d → c.map Prod.snd = d.map Prod.snd → f = g

lemma Path.update_back (hp : Path (Function.update T f v) root h c) (hf : f ∉ c.map Prod.fst) :
    Path T root h c := by
  have hback := hp.update_of_notMem (v := T f) hf
  rwa [Function.update_idem, Function.update_eq_self] at hback

/-- A path that goes on below the node has its labels, so it ends at another node. -/
lemma Distinct.of_prefix (hT : Distinct T root) (hf : Path T root f d)
    (hp : Path (Function.update T f v) root f (c ++ e)) (he : e ≠ []) (hc : c ≠ []) :
    c.map Prod.snd ≠ d.map Prod.snd := by
  intro hlabels
  rcases List.eq_nil_or_concat' c with rfl | ⟨c₀, ⟨g, n⟩, rfl⟩
  · exact hc rfl
  · rw [List.append_assoc, List.singleton_append] at hp
    have hg := hp.of_append
    have hnodup := hp.nodup
    have hlast : f ∈ e.map Prod.fst := by
      obtain ⟨c₁, m, hlast⟩ := hp.exists_last
      rcases List.eq_nil_or_concat' e with rfl | ⟨e₀, x, rfl⟩
      · exact absurd rfl he
      · rw [← List.cons_append, ← List.append_assoc] at hlast
        have hx := (List.cons.inj (List.append_inj' hlast rfl).2).1
        rw [hx]
        simp
    have hnot : f ∉ (c₀ ++ [(g, n)]).map Prod.fst := by
      rw [← List.singleton_append, ← List.append_assoc, List.map_append] at hnodup
      exact fun hmem => List.disjoint_of_nodup_append hnodup hmem hlast
    obtain rfl := hT _ _ _ _ (hg.update_back hnot) hf hlabels
    exact hnot (by simp)

/-- **While the paths through one node change, no node has the labels that another one is about
to get.** -/
theorem Distinct.apart (hT : Distinct T root) (hT' : Distinct (Function.update T f v) root)
    {cf cf' : List (κ × β)} (hcf : Path T root f cf)
    (hcf' : Path (Function.update T f v) root f cf') {k : κ} (hk : Path T root k d)
    (hh : Path (Function.update T f v) root h (cf' ++ e))
    (hlabels : d.map Prod.snd = (cf' ++ e).map Prod.snd) : k = h := by
  by_cases hmem : f ∈ d.map Prod.fst
  · obtain ⟨cf₀, r, rfl, hcf₀, hr⟩ := hk.split hmem
    obtain rfl := hcf₀.unique hcf
    have hk' := hk.rebase hcf hr hcf'
    rw [List.map_append, List.map_append] at hlabels
    rcases List.append_eq_append_iff.mp hlabels with ⟨l, hl, -⟩ | ⟨l, hl, hrest⟩
    · -- the old path of the node is the beginning of its new one
      cases l with
      | nil =>
        rw [List.append_nil] at hl
        rw [hl] at hlabels
        refine hT' _ _ _ _ hk' hh ?_
        rw [List.map_append, List.map_append, hl, List.append_cancel_left hlabels]
      | cons x l =>
        obtain ⟨c₀, e₀, rfl, hc₀, he₀⟩ := List.map_eq_append_iff.mp hl
        refine absurd hc₀ (hT.of_prefix hcf hcf' ?_ ?_)
        · rintro rfl
          exact List.cons_ne_nil _ _ he₀.symm
        · rintro rfl
          exact hcf.ne_nil (List.map_eq_nil_iff.mp hc₀.symm)
    · -- the new path is the beginning of the old one
      cases l with
      | nil =>
        rw [List.append_nil] at hl
        rw [hl] at hlabels
        refine hT' _ _ _ _ hk' hh ?_
        rw [List.map_append, List.map_append, List.append_cancel_left hlabels]
      | cons x l =>
        obtain ⟨c₀, e₀, rfl, hc₀, he₀⟩ := List.map_eq_append_iff.mp hl
        have hback : Path (Function.update (Function.update T f v) f (T f)) root f (c₀ ++ e₀) := by
          rwa [Function.update_idem, Function.update_eq_self]
        refine absurd hc₀ (hT'.of_prefix hcf' hback ?_ ?_)
        · rintro rfl
          exact List.cons_ne_nil _ _ he₀.symm
        · rintro rfl
          exact hcf'.ne_nil (List.map_eq_nil_iff.mp hc₀.symm)
  · exact hT' _ _ _ _ (hk.update_of_notMem hmem) hh hlabels

end SteepSystem.Lib.TreePaths
