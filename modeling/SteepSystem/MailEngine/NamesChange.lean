import SteepSystem.MailEngine.NamesUpdate

/-!
The index next to the store: every row has the name of its path. One folder that is renamed or
moved, together with a call that renames what is below it, keeps that.
-/

namespace SteepSystem.MailEngine.Names

open SteepSystem.Lib.CStrings SteepSystem.Lib.TreePaths

variable {T : ℕ → Option (ℕ × Name)} {t t₁ t₂ : Folders} {store : Store} {s : Mailbox}
  {f k p p' fuel : ℕ} {n n' : Name} {c cf cf' : List (ℕ × Name)} {x : StoreFolder} {op : Op}

/-- The folders below the IPM subtree are a tree, with the built-in ones at its top level, their
names are C strings without a '/', and the lengths are within the limits that the code checks. -/
structure Domain (store : Store) : Prop where
  root : store privateFidIpmsubtree = none
  builtin : ∀ b, (fixedName b).isSome →
    ∃ x, store b = some x ∧ x.parentId = privateFidIpmsubtree ∧ x.isMail
  tree : ∀ f x, store f = some x → ∃ c,
    Path (fun f => (store f).map fun x => (x.parentId, x.displayName)) privateFidIpmsubtree f c
  clean : ∀ f x, store f = some x → 47 ∉ x.displayName ∧ 0 ∉ x.displayName
  name : ∀ f x, store f = some x → x.displayName.length < 256
  path : ∀ f c, Path (memory store) privateFidIpmsubtree f c → (pathName c).length < 512

/-- The names of the top level are not empty, and no two folders get the same name. -/
structure Apart (store : Store) : Prop where
  named : Named (memory store)
  distinct : Distinct (memory store) privateFidIpmsubtree

lemma memory_eq_some (h : memory store f = some (p, n)) : ∃ x, store f = some x ∧ x.isMail ∧
    p = x.parentId ∧ n = (fixedName f).getD x.displayName := by
  unfold memory at h
  cases hx : store f with
  | none =>
    rw [hx] at h
    exact absurd h (by simp)
  | some x =>
    rw [hx] at h
    dsimp only at h
    split at h
    · rename_i hmail
      refine ⟨x, rfl, hmail, ?_⟩
      cases hname : fixedName f with
      | some name =>
        rw [hname] at h
        obtain ⟨rfl, rfl⟩ := Prod.mk.inj (Option.some.inj h)
        exact ⟨rfl, rfl⟩
      | none =>
        rw [hname] at h
        dsimp only at h
        split at h
        · obtain ⟨rfl, rfl⟩ := Prod.mk.inj (Option.some.inj h)
          exact ⟨rfl, rfl⟩
        · exact absurd h (by simp)
    · exact absurd h (by simp)

lemma Domain.memory (h : Domain store) (hx : store f = some x) (hmail : x.isMail) :
    memory store f = some (x.parentId, (fixedName f).getD x.displayName) := by
  have hlen := h.name f x hx
  unfold Names.memory
  rw [hx]
  dsimp only
  rw [if_pos hmail]
  cases fixedName f with
  | some name => rfl
  | none => exact if_pos hlen

lemma fixedName_clean (h : fixedName f = some n) : 47 ∉ n ∧ 0 ∉ n ∧ n.length < 256 := by
  unfold fixedName at h
  split_ifs at h <;> obtain rfl := Option.some.inj h <;> decide

lemma Domain.good (h : Domain store) (hapart : Apart store) : Good (Names.memory store) where
  root := by rw [Names.memory, h.root]
  clean f p n hf := by
    obtain ⟨x, hx, -, -, rfl⟩ := memory_eq_some hf
    cases hname : fixedName f with
    | some name => exact ⟨(fixedName_clean hname).1, (fixedName_clean hname).2.1⟩
    | none => exact h.clean f x hx
  limits := by
    refine ⟨fun f p n hf => ?_, h.path⟩
    obtain ⟨x, hx, -, -, rfl⟩ := memory_eq_some hf
    cases hname : fixedName f with
    | some name => exact (fixedName_clean hname).2.2
    | none => exact h.name f x hx
  distinct := hapart.distinct

/-- A built-in folder is at the top level. -/
lemma Domain.path_builtin (h : Domain store) (hf : fixedName f = some n) :
    Path (Names.memory store) privateFidIpmsubtree f [(f, n)] := by
  obtain ⟨x, hx, hparent, hmail⟩ := h.builtin f (by rw [hf]; rfl)
  have hmem := h.memory hx hmail
  rw [hf, hparent] at hmem
  exact .top hmem

/-- The folder is the root of the index, a built-in one, or indexed. -/
def Known (t : Folders) (p : ℕ) : Prop :=
  p = privateFidIpmsubtree ∨ (fixedName p).isSome ∨ p ∈ t.ids

/-- The row of a folder in the index is right. -/
structure Row (T : ℕ → Option (ℕ × Name)) (t : Folders) (k : ℕ) : Prop where
  path : ∃ c, Path T privateFidIpmsubtree k c ∧ Allowed c ∧ t.name k = storedName k c
  parent : ∃ n, T k = some (t.parentFid k, n)
  known : Known t (t.parentFid k)

structure Inv (s : Mailbox) : Prop where
  domain : Domain s.store
  apart : Apart s.store
  row : ∀ k ∈ s.folders.ids, Row (memory s.store) s.folders k

lemma Inv.good (h : Inv s) : Good (memory s.store) := h.domain.good h.apart

/-- The folders above an indexed one are indexed, or built in. -/
lemma Inv.mem_chain (h : Inv s) (hk : k ∈ s.folders.ids)
    (hp : Path (memory s.store) privateFidIpmsubtree k c) {j : ℕ} (hj : (j, n) ∈ c) :
    j ∈ s.folders.ids ∨ (fixedName j).isSome := by
  induction hp with
  | top hf =>
    obtain ⟨rfl, -⟩ := Prod.mk.inj (List.mem_singleton.mp hj)
    exact .inl hk
  | @sub k p m c hf hne hp ih =>
    rcases List.mem_append.mp hj with hj | hj
    · obtain ⟨m', hm'⟩ := (h.row k hk).parent
      rw [hf] at hm'
      obtain ⟨hparent, -⟩ := Prod.mk.inj (Option.some.inj hm')
      rcases (h.row k hk).known with hroot | hbuiltin | hmem
      · exact absurd (hparent.trans hroot) hne
      · rw [← hparent] at hbuiltin
        obtain ⟨name, hname⟩ := Option.isSome_iff_exists.mp hbuiltin
        obtain rfl := hp.unique (h.domain.path_builtin hname)
        obtain ⟨rfl, -⟩ := Prod.mk.inj (List.mem_singleton.mp hj)
        exact .inr hbuiltin
      · exact ih (hparent ▸ hmem) hj
    · obtain ⟨rfl, -⟩ := Prod.mk.inj (List.mem_singleton.mp hj)
      exact .inl hk

/-- A folder below another one is not built in. -/
lemma Domain.fixedName_eq_none (h : Domain store) {d : List (ℕ × Name)} (hd : d ≠ [])
    (hp : Path (Names.memory store) privateFidIpmsubtree k (d ++ [(k, n)])) :
    fixedName k = none := by
  cases hname : fixedName k with
  | none => rfl
  | some name =>
    have hlen := congrArg List.length (hp.unique (h.path_builtin hname))
    have hpos := List.length_pos_iff.mpr hd
    simp only [List.length_append, List.length_singleton] at hlen
    omega

lemma Inv.chain (h : Inv s) (hk : k ∈ s.folders.ids)
    (hp : Path (memory s.store) privateFidIpmsubtree k c) {d e : List (ℕ × Name)} {j : ℕ}
    (hc : c = d ++ (j, n) :: e) (hd : d ≠ []) : j ∈ s.folders.ids := by
  subst hc
  rcases h.mem_chain hk hp (List.mem_append_right _ (List.mem_cons_self ..)) with hj | hj
  · exact hj
  · rw [h.domain.fixedName_eq_none hd hp.of_append] at hj
    exact absurd hj (by simp)

/-- What the notifications read as the name of a parent is the one of its path. -/
lemma Inv.parentName (h : Inv s) (hp : Known s.folders p) (hne : p ≠ privateFidIpmsubtree) :
    ∃ c, Path (memory s.store) privateFidIpmsubtree p c ∧ Allowed c ∧
      s.folders.parentName p = some (pathName c) := by
  unfold Folders.parentName
  cases hname : fixedName p with
  | some name =>
    refine ⟨_, h.domain.path_builtin hname, fun g hg => ?_, by simp [pathName]⟩
    obtain rfl := Option.some.inj hg
    constructor
    · rintro rfl
      rw [show fixedName privateFidOutbox = none from rfl] at hname
      exact absurd hname (by simp)
    · rintro rfl
      rw [show fixedName privateFidSyncIssues = none from rfl] at hname
      exact absurd hname (by simp)
  | none =>
    rcases hp with hroot | hbuiltin | hmem
    · exact absurd hroot hne
    · rw [hname] at hbuiltin
      exact absurd hbuiltin (by simp)
    · obtain ⟨c, hc, hallowed, hrow⟩ := (h.row p hmem).path
      have hlen := h.domain.path p c hc
      rw [storedName, hname, Option.getD_none] at hrow
      refine ⟨c, hc, hallowed, ?_⟩
      dsimp only
      rw [if_pos ⟨hmem, by rw [hrow, length_encodeHex]; omega⟩, Folders.decoded, hrow,
        decodeHex_encodeHex, cstr_of_notMem (h.good.clean.pathName_notMem hc)]

lemma known_of_parentName (h : (t.parentName p).isSome) : Known t p := by
  unfold Folders.parentName at h
  cases hname : fixedName p with
  | some name => exact .inr (.inl (by rw [hname]; rfl))
  | none =>
    rw [hname] at h
    dsimp only at h
    split at h
    · rename_i hmem
      exact .inr (.inr hmem.1)
    · exact absurd h (by simp)

/-! ### One folder changed -/

lemma memory_update (store : Store) (f : ℕ) (v : Option StoreFolder) :
    memory (Function.update store f v) =
      Function.update (memory store) f (memory (Function.update store f v) f) := by
  funext k
  by_cases hk : k = f
  · subst hk
    rw [Function.update_self]
  · rw [Function.update_of_ne hk]
    unfold memory
    rw [Function.update_of_ne hk]

/-- A row whose path does not meet the folder changed is right as it was. -/
lemma Row.frame {v : Option (ℕ × Name)} (h : Row T t k)
    (hf : ∀ c, Path T privateFidIpmsubtree k c → f ∉ c.map Prod.fst) (hids : t.ids ⊆ t₂.ids)
    (hparent : t₂.parentFid k = t.parentFid k) (hname : t₂.name k = t.name k) :
    Row (Function.update T f v) t₂ k := by
  obtain ⟨c, hc, hallowed, hstored⟩ := h.path
  have hne : k ≠ f := by
    obtain ⟨d, m, rfl⟩ := hc.exists_last
    rintro rfl
    exact hf _ hc (by simp)
  obtain ⟨m, hm⟩ := h.parent
  refine ⟨⟨c, hc.update_of_notMem (hf c hc), hallowed, hname.trans hstored⟩,
    ⟨m, by rw [Function.update_of_ne hne, hm, hparent]⟩, ?_⟩
  rw [hparent]
  rcases h.known with hroot | hbuiltin | hmem
  · exact .inl hroot
  · exact .inr (.inl hbuiltin)
  · exact .inr (.inr (hids hmem))

/-- A folder that is neither indexed nor built in is on no path of the index. -/
lemma Inv.notMem_chain (h : Inv s) (hk : k ∈ s.folders.ids) (hf : f ∉ s.folders.ids)
    (hbuiltin : fixedName f = none) (hp : Path (memory s.store) privateFidIpmsubtree k c) :
    f ∉ c.map Prod.fst := by
  intro hmem
  obtain ⟨⟨j, n⟩, hj, rfl⟩ := List.mem_map.mp hmem
  rcases h.mem_chain hk hp hj with hj' | hj'
  · exact hf hj'
  · rw [hbuiltin] at hj'
    exact absurd hj' (by simp)

/-! ### A folder renamed or moved -/

/-- The row of the folder itself, rewritten. -/
def rewritten (t : Folders) (f p : ℕ) (name : Name) : Folders :=
  { t with
    parentFid := Function.update t.parentFid f p
    name := Function.update t.name f (encodeHex name) }

lemma name_rewritten_self : (rewritten t f p n).name f = encodeHex n := Function.update_self ..

lemma name_rewritten_of_ne (h : k ≠ f) : (rewritten t f p n).name k = t.name k :=
  Function.update_of_ne h ..

lemma parentFid_rewritten_self : (rewritten t f p n).parentFid f = p := Function.update_self ..

lemma parentFid_rewritten_of_ne (h : k ≠ f) :
    (rewritten t f p n).parentFid k = t.parentFid k := Function.update_of_ne h ..

/-- The tree with the folder renamed or moved, next to the index before. -/
structure Change (s : Mailbox) (T : ℕ → Option (ℕ × Name)) (f p : ℕ) (n : Name)
    (cf cf' : List (ℕ × Name)) : Prop where
  inv : Inv s
  good : Good T
  mem : f ∈ s.folders.ids
  custom : fixedName f = none
  tree : T = Function.update (memory s.store) f (some (p, n))
  path : Path (memory s.store) privateFidIpmsubtree f cf
  path' : Path T privateFidIpmsubtree f cf'
  allowed : Allowed cf'
  known : Known s.folders p

namespace Change

lemma back (h : Change s T f p n cf cf') :
    memory s.store = Function.update T f (memory s.store f) := by
  rw [h.tree, Function.update_idem, Function.update_eq_self]

/-- A folder below the one changed was below it before. -/
lemma old_path (h : Change s T f p n cf cf') {e : List (ℕ × Name)}
    (hp : Path T privateFidIpmsubtree k (cf' ++ e)) :
    Path (memory s.store) privateFidIpmsubtree k (cf ++ e) := by
  have hnodup := hp.nodup
  rw [List.map_append] at hnodup
  have hnot : f ∉ e.map Prod.fst := by
    obtain ⟨d, m, hlast⟩ := h.path'.exists_last
    refine fun hmem => List.disjoint_of_nodup_append hnodup ?_ hmem
    rw [hlast]
    simp
  rw [h.back]
  refine hp.rebase h.path' hnot ?_
  rw [← h.back]
  exact h.path

lemma new_path (h : Change s T f p n cf cf') {e : List (ℕ × Name)}
    (hp : Path (memory s.store) privateFidIpmsubtree k (cf ++ e)) (hnot : f ∉ e.map Prod.fst) :
    Path T privateFidIpmsubtree k (cf' ++ e) := by
  have hpath := h.path'
  rw [h.tree] at hpath ⊢
  exact hp.rebase h.path hnot hpath

/-- No other row has the name that a folder on a path through `f` gets. -/
lemma name_ne (h : Change s T f p n cf cf') {e : List (ℕ × Name)} {j : ℕ}
    (hk : Path T privateFidIpmsubtree k (cf' ++ e)) (hj : j ∈ s.folders.ids) (hne : j ≠ k) :
    s.folders.name j ≠ encodeHex (pathName (cf' ++ e)) := by
  obtain ⟨c, hc, -, hname⟩ := (h.inv.row j hj).path
  rw [hname, storedName]
  cases hfixed : fixedName j with
  | some name => exact fixedName_ne_encodeHex hfixed _
  | none =>
    rw [Option.getD_none]
    intro heq
    have hlabels := labels_of_pathName (fun _ hx => (h.inv.good.clean.of_mem hc hx).1)
      (fun _ hx => (h.good.clean.of_mem hk hx).1) hc.ne_nil hk.ne_nil (encodeHex_inj.mp heq)
    have hdistinct := h.good.distinct
    have hpath := h.path'
    rw [h.tree] at hdistinct hpath hk
    exact hne (h.inv.good.distinct.apart hdistinct h.path hpath hc hk hlabels)

lemma ready (h : Change s T f p n cf cf') :
    Ready T cf' (rewritten s.folders f p (pathName cf')) where
  agree k hk := by
    by_cases hkf : k = f
    · subst hkf
      exact ⟨n, by rw [h.tree, Function.update_self, parentFid_rewritten_self]⟩
    · obtain ⟨m, hm⟩ := (h.inv.row k hk).parent
      exact ⟨m, by rw [h.tree, Function.update_of_ne hkf, hm, parentFid_rewritten_of_ne hkf]⟩
  chain k hk d j m e hpath := by
    rw [List.append_assoc] at hpath
    have hold := h.old_path hpath
    rw [← List.append_assoc] at hold
    exact h.inv.chain hk hold rfl (by simp [h.path.ne_nil])
  shape k hk c hc hcf q m hm := by
    obtain ⟨⟨e, rfl⟩, hpath⟩ := hc.symm
    have he : e ≠ [] := by
      rintro rfl
      exact hcf (List.append_nil _)
    obtain ⟨e, ⟨j, m'⟩, rfl⟩ := List.eq_nil_or_concat' e |>.resolve_left he
    have hold := h.old_path hpath
    have hjk : j = k := by
      obtain ⟨d, m₁, hlast⟩ := hold.exists_last
      rw [← List.append_assoc] at hlast
      exact (Prod.mk.inj (List.cons.inj (List.append_inj' hlast rfl).2).1).1
    subst hjk
    have hmm : m' = m := by
      obtain ⟨q', hq'⟩ := hpath.label (List.mem_append_right _ (List.mem_append_right _
        (List.mem_singleton_self _)))
      rw [hm] at hq'
      exact (Prod.mk.inj (Option.some.inj hq')).2.symm
    subst hmm
    have hkf : j ≠ f := by
      rintro rfl
      have hlen := congrArg List.length (hpath.unique h.path')
      simp only [List.length_append, List.length_singleton] at hlen
      omega
    rw [← List.append_assoc] at hold
    have hne : cf ++ e ≠ [] := by simp [h.path.ne_nil]
    obtain ⟨c, hc', -, hname⟩ := (h.inv.row j hk).path
    obtain rfl := hc'.unique hold
    rw [storedName, h.inv.domain.fixedName_eq_none hne hold, Option.getD_none,
      pathName_concat hne] at hname
    obtain ⟨q, m₁, hq, ⟨-, hlast⟩ | ⟨-, d, hd, hlast⟩⟩ := hold.exists_parent
    · have hlen := congrArg List.length hlast
      have hpos := List.length_pos_iff.mpr hne
      simp only [List.length_append, List.length_singleton] at hlen hpos
      omega
    · obtain ⟨rfl, -⟩ := List.append_inj' hlast rfl
      refine ⟨pathName (cf ++ e), h.inv.good.clean.pathName_notMem hd, ?_⟩
      rw [← hname, name_rewritten_of_ne hkf]
  apart k hk c hc j hj hne := by
    obtain ⟨⟨e, rfl⟩, hpath⟩ := hc.symm
    by_cases hjf : j = f
    · subst hjf
      intro heq
      rw [name_rewritten_self] at heq
      exact hne (h.good.eq_of_pathName h.path' hpath (encodeHex_inj.mp heq))
    · have hname := h.name_ne hpath hj hne
      rwa [name_rewritten_of_ne hjf]

/-- The call of `mail_engine_update_subfolders_name` has what it needs, or nothing to do. -/
lemma renames (h : Change s T f p n cf cf') {name : Name}
    (hname : (∀ k ∈ s.folders.ids, s.folders.parentFid k ≠ f) ∨ name = pathName cf') :
    Renames T cf' (rewritten s.folders f p (pathName cf'))
      ((rewritten s.folders f p (pathName cf')).updateSubfoldersName 512 f name) cf' := by
  have hmoved : Moved T cf' f cf' := ⟨h.path', List.prefix_rfl⟩
  rcases hname with hnone | rfl
  · have hparent : ∀ k ∈ s.folders.ids, k ≠ f →
        (rewritten s.folders f p (pathName cf')).parentFid k ≠ f := by
      intro k hk hkf
      rw [parentFid_rewritten_of_ne hkf]
      exact hnone k hk
    have hself : p ≠ f := by
      rintro rfl
      obtain ⟨q, m, hq, ⟨hroot, -⟩ | ⟨-, d, hd, hlast⟩⟩ := h.path'.exists_parent
      · rw [h.tree, Function.update_self] at hq
        obtain ⟨rfl, -⟩ := Prod.mk.inj (Option.some.inj hq)
        have hpath := h.path'
        rw [hroot] at hpath
        obtain ⟨q', m', hq', -⟩ := hpath.exists_parent
        rw [h.good.root] at hq'
        exact absurd hq' (by simp)
      · rw [h.tree, Function.update_self] at hq
        obtain ⟨rfl, -⟩ := Prod.mk.inj (Option.some.inj hq)
        have hlen := congrArg List.length ((hd.unique h.path').trans hlast)
        rw [List.length_append, List.length_singleton] at hlen
        omega
    have hfilter : ((rewritten s.folders f p (pathName cf')).ids.filter fun k =>
        (rewritten s.folders f p (pathName cf')).parentFid k = f) = [] := by
      rw [List.filter_eq_nil_iff]
      intro k hk
      rw [decide_eq_true_eq]
      by_cases hkf : k = f
      · rw [hkf, parentFid_rewritten_self]
        exact hself
      · exact hparent k hk hkf
    rw [Folders.updateSubfoldersName, hfilter]
    refine ⟨Toward.refl _, fun k hk e he hpath => ?_⟩
    obtain ⟨⟨j, m⟩, e, rfl⟩ := List.exists_cons_of_ne_nil he
    obtain ⟨hj, -, hpar⟩ := h.ready.child hmoved hk hpath
    refine absurd hpar ?_
    by_cases hjf : j = f
    · rw [hjf, parentFid_rewritten_self]
      exact hself
    · exact hparent j hj hjf
  · exact h.ready.updateSubfoldersName h.good h.path'.ne_nil hmoved (by omega)

/-- **The rows are right in the new tree.** -/
lemma row (h : Change s T f p n cf cf')
    (hren : Renames T cf' (rewritten s.folders f p (pathName cf')) t₂ cf') :
    ∀ k ∈ t₂.ids, Row T t₂ k := by
  obtain ⟨htoward, hbelow⟩ := hren
  have hids : t₂.ids = s.folders.ids := htoward.ids
  have hparent : ∀ k, k ≠ f → t₂.parentFid k = s.folders.parentFid k := by
    intro k hk
    rw [htoward.parentFid, parentFid_rewritten_of_ne hk]
  have hknown : ∀ q, Known s.folders q → Known t₂ q := by
    rintro q (hq | hq | hq)
    · exact .inl hq
    · exact .inr (.inl hq)
    · exact .inr (.inr (hids ▸ hq))
  have hfself : t₂.parentFid f = p := by rw [htoward.parentFid, parentFid_rewritten_self]
  intro k hk
  rw [hids] at hk
  obtain ⟨c, hc, hallowed, hname⟩ := (h.inv.row k hk).path
  by_cases hf : f ∈ c.map Prod.fst
  · obtain ⟨c₀, e, rfl, hc₀, he⟩ := hc.split hf
    obtain rfl := hc₀.unique h.path
    have hnew := h.new_path hc he
    have hhead : Allowed (cf' ++ e) := by
      intro g hg
      refine h.allowed g ?_
      obtain ⟨y, l, hl⟩ := List.exists_cons_of_ne_nil h.path'.ne_nil
      rwa [hl] at hg ⊢
    by_cases hkf : k = f
    · subst hkf
      have hat : AtTarget T (rewritten s.folders k p (pathName cf')) k := fun d hd => by
        rw [name_rewritten_self, hd.unique h.path']
      refine ⟨⟨cf', h.path', h.allowed, ?_⟩, ⟨n, ?_⟩, ?_⟩
      · rw [storedName, h.custom, Option.getD_none]
        exact hat.toward htoward _ h.path'
      · rw [h.tree, Function.update_self, hfself]
      · rw [hfself]
        exact hknown p h.known
    · have hene : e ≠ [] := by
        rintro rfl
        rw [List.append_nil] at hc
        obtain ⟨d, m, hlast⟩ := hc.exists_last
        obtain ⟨d', m', hlast'⟩ := h.path.exists_last
        have hcons := (List.append_inj' (hlast.symm.trans hlast') rfl).2
        exact hkf (Prod.mk.inj (List.cons.inj hcons).1).1
      obtain ⟨m, hm⟩ := (h.inv.row k hk).parent
      refine ⟨⟨_, hnew, hhead, ?_⟩, ⟨m, ?_⟩, ?_⟩
      · obtain ⟨e, ⟨j, m'⟩, rfl⟩ := List.eq_nil_or_concat' e |>.resolve_left hene
        have hjk : j = k := by
          obtain ⟨d, m₁, hlast⟩ := hc.exists_last
          rw [← List.append_assoc] at hlast
          exact (Prod.mk.inj (List.cons.inj (List.append_inj' hlast rfl).2).1).1
        subst hjk
        rw [← List.append_assoc] at hc
        rw [storedName, h.inv.domain.fixedName_eq_none (by simp [h.path.ne_nil]) hc,
          Option.getD_none]
        exact hbelow j hk _ hene hnew _ hnew
      · rw [h.tree, Function.update_of_ne hkf, hm, hparent k hkf]
      · rw [hparent k hkf]
        exact hknown _ (h.inv.row k hk).known
  · have hkf : k ≠ f := by
      obtain ⟨d, m, rfl⟩ := hc.exists_last
      rintro rfl
      exact hf (by simp)
    have hsame : t₂.name k = s.folders.name k := by
      rcases htoward.name k with heq | ⟨-, d, ⟨hd, hprefix⟩, -⟩
      · rw [heq, name_rewritten_of_ne hkf]
      · -- its path does not go through `f`
        have hc' : Path T privateFidIpmsubtree k c := by
          rw [h.tree]
          exact hc.update_of_notMem hf
        obtain rfl := hd.unique hc'
        obtain ⟨e, rfl⟩ := hprefix
        obtain ⟨d', m, hlast⟩ := h.path'.exists_last
        rw [hlast] at hf
        exact absurd (by simp) hf
    rw [h.tree]
    exact (h.inv.row k hk).frame (fun d hd => hd.unique hc ▸ hf) (hids ▸ List.Subset.refl _)
      (hparent k hkf) hsame

end Change

end SteepSystem.MailEngine.Names
