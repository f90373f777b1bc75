import SteepSystem.MailEngine.NamesPaths

/-!
`mail_engine_update_subfolders_name` gives every folder below a folder the name of its path. `T`
is the tree that the index has reached, `f` the folder that was renamed or moved in it and `cf`
its path.
-/

namespace SteepSystem.MailEngine.Names

open SteepSystem.Lib.CStrings SteepSystem.Lib.TreePaths

variable {T : ℕ → Option (ℕ × Name)} {t t₀ t' : Folders} {f g k fuel : ℕ} {n s : Name}
  {c cf cg : List (ℕ × Name)}

/-- The path goes through the folder that was renamed or moved. -/
def Moved (T : ℕ → Option (ℕ × Name)) (cf : List (ℕ × Name)) (k : ℕ) (c : List (ℕ × Name)) :
    Prop := Path T privateFidIpmsubtree k c ∧ cf <+: c

/-- What the tree is: its names are clean and within the limits, and the paths tell the folders
apart. -/
structure Good (T : ℕ → Option (ℕ × Name)) : Prop where
  root : T privateFidIpmsubtree = none
  clean : Clean T
  limits : Limits T
  distinct : Distinct T privateFidIpmsubtree

lemma Good.eq_of_pathName (hT : Good T) {h : ℕ} {d : List (ℕ × Name)}
    (hk : Path T privateFidIpmsubtree k c) (hh : Path T privateFidIpmsubtree h d)
    (heq : pathName c = pathName d) : k = h :=
  hT.distinct _ _ _ _ hk hh (labels_of_pathName (fun _ hx => (hT.clean.of_mem hk hx).1)
    (fun _ hx => (hT.clean.of_mem hh hx).1) hk.ne_nil hh.ne_nil heq)

/-- Where the renaming of the folders below `f` stands: every row is one of the tree, the names of
the rows below `f` end as they should, and the name that such a row is to get is in no other row. -/
structure Ready (T : ℕ → Option (ℕ × Name)) (cf : List (ℕ × Name)) (t : Folders) : Prop where
  agree : ∀ k ∈ t.ids, ∃ n, T k = some (t.parentFid k, n)
  chain : ∀ k ∈ t.ids, ∀ d j n e, Path T privateFidIpmsubtree k (cf ++ d ++ (j, n) :: e) →
    j ∈ t.ids
  shape : ∀ k ∈ t.ids, ∀ c, Moved T cf k c → c ≠ cf → ∀ p n, T k = some (p, n) →
    ∃ s, 0 ∉ s ∧ t.name k = encodeHex (s ++ 47 :: n)
  apart : ∀ k ∈ t.ids, ∀ c, Moved T cf k c → ∀ h ∈ t.ids, h ≠ k →
    t.name h ≠ encodeHex (pathName c)

/-- Some rows on paths through `f` have got the names of their paths, and nothing else changed. -/
structure Toward (T : ℕ → Option (ℕ × Name)) (cf : List (ℕ × Name)) (t t' : Folders) : Prop where
  ids : t'.ids = t.ids
  parentFid : t'.parentFid = t.parentFid
  name : ∀ k, t'.name k = t.name k ∨
    k ∈ t.ids ∧ ∃ c, Moved T cf k c ∧ t'.name k = encodeHex (pathName c)

lemma Toward.refl (t : Folders) : Toward T cf t t := ⟨rfl, rfl, fun _ => .inl rfl⟩

lemma Toward.trans (h : Toward T cf t₀ t) (h' : Toward T cf t t') : Toward T cf t₀ t' := by
  refine ⟨h'.ids.trans h.ids, h'.parentFid.trans h.parentFid, fun k => ?_⟩
  rcases h'.name k with hk | ⟨hk, c, hc, hname⟩
  · rw [hk]
    exact h.name k
  · exact .inr ⟨h.ids ▸ hk, c, hc, hname⟩

/-- The row has the name of its path. -/
def AtTarget (T : ℕ → Option (ℕ × Name)) (t : Folders) (k : ℕ) : Prop :=
  ∀ c, Path T privateFidIpmsubtree k c → t.name k = encodeHex (pathName c)

lemma AtTarget.toward (h : AtTarget T t k) (htoward : Toward T cf t t') : AtTarget T t' k := by
  intro c hc
  rcases htoward.name k with hk | ⟨-, d, ⟨hd, -⟩, hname⟩
  · rw [hk]
    exact h c hc
  · rw [hname, hd.unique hc]

lemma Ready.toward (hT : Good T) (h : Ready T cf t) (hne : cf ≠ []) (htoward : Toward T cf t t') :
    Ready T cf t' where
  agree := by
    rw [htoward.ids, htoward.parentFid]
    exact h.agree
  chain := by
    rw [htoward.ids]
    exact h.chain
  shape := by
    rw [htoward.ids]
    intro k hk c hc hcf p n hn
    rcases htoward.name k with heq | ⟨-, d, hd, heq⟩
    · rw [heq]
      exact h.shape k hk c hc hcf p n hn
    · obtain rfl := hd.1.unique hc.1
      obtain ⟨p', n', hn', ⟨-, hlast⟩ | ⟨-, d₀, hd₀, rfl⟩⟩ := hc.1.exists_parent
      · -- a path of one folder that begins with `cf` is `cf`
        have hprefix := hc.2
        rw [hlast] at hprefix hcf
        rcases (@List.prefix_concat_iff _ _ [] _).mp hprefix with heq' | hnil
        · exact absurd heq'.symm hcf
        · exact absurd (List.prefix_nil.mp hnil) hne
      · obtain ⟨-, rfl⟩ := Prod.mk.inj (Option.some.inj (hn.symm.trans hn'))
        exact ⟨pathName d₀, hT.clean.pathName_notMem hd₀,
          by rw [heq, pathName_concat hd₀.ne_nil]⟩
  apart := by
    rw [htoward.ids]
    intro k hk c hc h' hh' hne'
    rcases htoward.name h' with heq | ⟨-, d, hd, heq⟩
    · rw [heq]
      exact h.apart k hk c hc h' hh' hne'
    · rw [heq]
      exact fun htarget => hne' (hT.eq_of_pathName hd.1 hc.1 (encodeHex_inj.mp htarget))

lemma moved_concat (hT : Good T) (hg : Moved T cf g cg) (hk : T k = some (g, n)) :
    Moved T cf k (cg ++ [(k, n)]) := by
  have hroot : g ≠ privateFidIpmsubtree := by
    rintro rfl
    obtain ⟨p, m, hm, -⟩ := hg.1.exists_parent
    rw [hT.root] at hm
    exact absurd hm (by simp)
  exact ⟨.sub hk hroot hg.1, hg.2.trans (List.prefix_append _ _)⟩

lemma Ready.decoded (hT : Good T) (h : Ready T cf t) (hg : Moved T cf g cg) (hk : k ∈ t.ids)
    (hn : T k = some (g, n)) : ∃ s, Folders.strrchr (t.decoded k) = some (s, 47 :: n) := by
  have hmoved := moved_concat hT hg hn
  have hne : cg ++ [(k, n)] ≠ cf := by
    rintro rfl
    have hlen := hg.2.length_le
    rw [List.length_append, List.length_singleton] at hlen
    omega
  obtain ⟨s, hs, hname⟩ := h.shape k hk _ hmoved hne g n hn
  have hclean := hT.clean k g n hn
  refine ⟨s, ?_⟩
  rw [Folders.decoded, hname, decodeHex_encodeHex, cstr_of_notMem, strrchr_append hclean.1]
  intro hmem
  rcases List.mem_append.mp hmem with hmem | hmem
  · exact hs hmem
  · rcases List.mem_cons.mp hmem with hmem | hmem
    · exact absurd hmem (by decide)
    · exact hclean.2 hmem

lemma setName_of_apart (h : ∀ j ∈ t.ids, j ≠ k → t.name j ≠ n) :
    t.setName k n = { t with name := Function.update t.name k n } := by
  rw [Folders.setName, if_neg]
  intro htaken
  obtain ⟨j, hj, hname⟩ := List.any_eq_true.mp htaken
  rw [Bool.and_eq_true, decide_eq_true_eq, decide_eq_true_eq] at hname
  exact h j hj hname.1 hname.2

/-- The name of a child is written. -/
lemma Ready.setName (h : Ready T cf t) (hk : k ∈ t.ids) (hc : Moved T cf k c) :
    Toward T cf t (t.setName k (encodeHex (pathName c))) ∧
      AtTarget T (t.setName k (encodeHex (pathName c))) k := by
  rw [setName_of_apart fun j hj hne => h.apart k hk c hc j hj hne]
  refine ⟨⟨rfl, rfl, fun j => ?_⟩, fun d hd => ?_⟩
  · by_cases hj : j = k
    · subst hj
      exact .inr ⟨hk, c, hc, Function.update_self ..⟩
    · exact .inl (Function.update_of_ne hj ..)
  · rw [hd.unique hc.1]
    exact Function.update_self ..

/-- What is said of a call that renames the folders below one. -/
def Renames (T : ℕ → Option (ℕ × Name)) (cf : List (ℕ × Name)) (t t' : Folders)
    (cg : List (ℕ × Name)) : Prop :=
  Toward T cf t t' ∧ ∀ k ∈ t.ids, ∀ e, e ≠ [] → Path T privateFidIpmsubtree k (cg ++ e) →
    AtTarget T t' k

/-- A turn of the loop renames a child and what is below it. -/
lemma Ready.renameChild {update : Folders → ℕ → Name → Folders} (hT : Good T) (h : Ready T cf t)
    (hne : cf ≠ []) (hg : Moved T cf g cg) (hk : k ∈ t.ids) (hn : T k = some (g, n))
    (hupdate : ∀ t, Ready T cf t →
      Renames T cf t (update t k (pathName (cg ++ [(k, n)]))) (cg ++ [(k, n)])) :
    Toward T cf t (Folders.renameChild update (pathName cg) t k) ∧
      ∀ j ∈ t.ids, ∀ e, Path T privateFidIpmsubtree j (cg ++ (k, n) :: e) →
        AtTarget T (Folders.renameChild update (pathName cg) t k) j := by
  have hmoved := moved_concat hT hg hn
  obtain ⟨s, hs⟩ := h.decoded hT hg hk hn
  have hname : pathName cg ++ 47 :: n = pathName (cg ++ [(k, n)]) :=
    (pathName_concat hg.1.ne_nil).symm
  have hlen := hT.limits.path k _ hmoved.1
  have hroom : ¬ (47 :: n).length + (pathName cg).length ≥ 512 := by
    rw [← hname, List.length_append] at hlen
    omega
  have hturn : Folders.renameChild update (pathName cg) t k =
      update (t.setName k (encodeHex (pathName (cg ++ [(k, n)])))) k
        (pathName (cg ++ [(k, n)])) := by
    rw [Folders.renameChild, hs]
    dsimp only
    rw [if_neg hroom, hname]
  obtain ⟨hset, hat⟩ := h.setName hk hmoved
  obtain ⟨htoward, hbelow⟩ := hupdate _ (h.toward hT hne hset)
  rw [hturn]
  refine ⟨hset.trans htoward, fun j hj e hpath => ?_⟩
  cases e with
  | nil =>
    have hjk : j = k := by
      obtain ⟨d, m, hlast⟩ := hpath.exists_last
      exact (Prod.mk.inj (List.cons.inj (List.append_inj' hlast rfl).2).1).1.symm
    rw [hjk]
    exact hat.toward htoward
  | cons x e =>
    exact hbelow j (hset.ids ▸ hj) (x :: e) (List.cons_ne_nil _ _) (by simpa using hpath)

/-- The rows below `g` are found by `parent_fid`. -/
lemma Ready.child (h : Ready T cf t) (hg : Moved T cf g cg) (hk : k ∈ t.ids) {j : ℕ}
    {e : List (ℕ × Name)} (hpath : Path T privateFidIpmsubtree k (cg ++ (j, n) :: e)) :
    j ∈ t.ids ∧ T j = some (g, n) ∧ t.parentFid j = g := by
  obtain ⟨d, hd⟩ := hg.2
  have hj := h.chain k hk d j n e (by rw [hd]; exact hpath)
  obtain ⟨p, m, hm, hlast⟩ := hpath.of_append.exists_parent
  have hparent : T j = some (g, n) := by
    rcases hlast with ⟨-, hlast⟩ | ⟨-, d, hd, hlast⟩
    · have hlen := congrArg List.length hlast
      have hpos := List.length_pos_iff.mpr hg.1.ne_nil
      simp only [List.length_append, List.length_singleton] at hlen
      omega
    · obtain ⟨hd', hcons⟩ := List.append_inj' hlast rfl
      obtain ⟨-, hnm⟩ := Prod.mk.inj (List.cons.inj hcons).1
      rw [← hd'] at hd
      rw [← hnm] at hm
      obtain ⟨d₁, m₁, hd₁⟩ := hd.exists_last
      obtain ⟨d₂, m₂, hd₂⟩ := hg.1.exists_last
      have hlast' := (List.append_inj' (hd₁.symm.trans hd₂) rfl).2
      obtain ⟨rfl, -⟩ := Prod.mk.inj (List.cons.inj hlast').1
      exact hm
  obtain ⟨n', hn'⟩ := h.agree j hj
  rw [hparent] at hn'
  exact ⟨hj, hparent, (Prod.mk.inj (Option.some.inj hn')).1.symm⟩

/-- **Every folder below `g` gets the name of its path, and only folders on paths through `f` get
a new name.** -/
theorem Ready.updateSubfoldersName (hT : Good T) (h : Ready T cf t) (hne : cf ≠ [])
    (hg : Moved T cf g cg) (hfuel : 512 ≤ fuel + (pathName cg).length) :
    Renames T cf t (t.updateSubfoldersName fuel g (pathName cg)) cg := by
  induction fuel generalizing t g cg with
  | zero =>
    have hlen := hT.limits.path g cg hg.1
    omega
  | succ fuel ih =>
    rw [Folders.updateSubfoldersName]
    -- the children one after the other, from any state on the way
    have hloop : ∀ (l : List ℕ) (t₁ : Folders), Toward T cf t t₁ →
        (∀ j ∈ l, j ∈ t.ids ∧ ∃ n, T j = some (g, n)) →
        Toward T cf t₁ (l.foldl (Folders.renameChild (Folders.updateSubfoldersName fuel)
          (pathName cg)) t₁) ∧
        ∀ j ∈ l, ∀ k ∈ t.ids, ∀ n e, Path T privateFidIpmsubtree k (cg ++ (j, n) :: e) →
          AtTarget T (l.foldl (Folders.renameChild (Folders.updateSubfoldersName fuel)
            (pathName cg)) t₁) k := by
      intro l
      induction l with
      | nil => exact fun t₁ _ _ => ⟨Toward.refl t₁, by simp⟩
      | cons j rest ihl =>
        intro t₁ ht₁ hl
        obtain ⟨hj, n, hn⟩ := hl j (List.mem_cons_self ..)
        have hmoved := moved_concat hT hg hn
        obtain ⟨hturn, hat⟩ := (h.toward hT hne ht₁).renameChild hT hne hg
          (ht₁.ids ▸ hj) hn fun t' ht' => ih ht' hmoved (by
            rw [pathName_concat hg.1.ne_nil, List.length_append, List.length_cons]
            omega)
        obtain ⟨htoward, hrest⟩ := ihl _ (ht₁.trans hturn)
          fun j' hj' => hl j' (List.mem_cons_of_mem _ hj')
        refine ⟨hturn.trans htoward, fun j' hj' k hk n' e hpath => ?_⟩
        rcases List.mem_cons.mp hj' with rfl | hj'
        · have hparent := (h.child hg hk hpath).2.1
          rw [hn] at hparent
          obtain ⟨-, rfl⟩ := Prod.mk.inj (Option.some.inj hparent)
          exact (hat k (ht₁.ids ▸ hk) e hpath).toward htoward
        · exact hrest j' hj' k hk n' e hpath
    obtain ⟨htoward, hat⟩ := hloop (t.ids.filter fun k => t.parentFid k = g) t (Toward.refl t)
      fun j hj => by
        obtain ⟨hj, hparent⟩ := List.mem_filter.mp hj
        obtain ⟨n, hn⟩ := h.agree j hj
        rw [decide_eq_true_eq] at hparent
        exact ⟨hj, n, by rw [hn, hparent]⟩
    refine ⟨htoward, fun k hk e he hpath => ?_⟩
    obtain ⟨⟨j, n⟩, e, rfl⟩ := List.exists_cons_of_ne_nil he
    obtain ⟨hj, -, hparent⟩ := h.child hg hk hpath
    exact hat j (List.mem_filter.mpr ⟨hj, decide_eq_true hparent⟩) k hk n e hpath

end SteepSystem.MailEngine.Names
