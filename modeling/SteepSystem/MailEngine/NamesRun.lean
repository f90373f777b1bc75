import SteepSystem.Lib.Runs
import SteepSystem.MailEngine.NamesChange

/-!
Histories of the folders of a mailbox, with the notifications of `midb`. A folder of the top
level is renamed, and a folder is moved there, with a name that is copied without its NUL: the
folders below it get names that go on with whatever is behind it.
-/

namespace SteepSystem.MailEngine.Names

open SteepSystem.Lib.CStrings SteepSystem.Lib.TreePaths SteepSystem.Lib.Runs

variable {T : ℕ → Option (ℕ × Name)} {t : Folders} {store : Store} {s : Mailbox}
  {f k p : ℕ} {n : Name} {c : List (ℕ × Name)} {x : StoreFolder} {op : Op}

lemma fixedName_custom (h : privateFidCustom ≤ f) : fixedName f = none := by
  have hcustom : 30 ≤ f := h
  unfold fixedName
  repeat rw [if_neg (by omega)]

lemma allowed_custom (h : privateFidCustom ≤ f) : Allowed [(f, n)] := by
  have hcustom : 30 ≤ f := h
  intro g hg
  obtain rfl : f = g := Option.some.inj hg
  constructor
  · show f ≠ 12
    omega
  · show f ≠ 25
    omega

lemma Allowed.append (h : Allowed c) (hc : c ≠ []) (e : List (ℕ × Name)) : Allowed (c ++ e) := by
  obtain ⟨y, l, rfl⟩ := List.exists_cons_of_ne_nil hc
  exact h

lemma known_of_childName (h : (t.childName p n).isSome) : Known t p := by
  by_cases hroot : p = privateFidIpmsubtree
  · exact .inl hroot
  · rw [Folders.childName, if_neg hroot] at h
    refine known_of_parentName (Option.isSome_iff_ne_none.mpr fun hnone => ?_)
    rw [hnone] at h
    exact absurd h (by simp)

/-- `temp_name` is the name of the path in the new tree. -/
lemma Inv.childName (h : Inv s) {temp : Name} (hcustom : privateFidCustom ≤ f)
    (hnot : ∀ c, Path (memory s.store) privateFidIpmsubtree p c → f ∉ c.map Prod.fst)
    (htemp : s.folders.childName p n = some temp) :
    ∃ cf, Path (Function.update (memory s.store) f (some (p, n))) privateFidIpmsubtree f cf ∧
      Allowed cf ∧ temp = pathName cf ∧ Known s.folders p := by
  have hf : Function.update (memory s.store) f (some (p, n)) f = some (p, n) :=
    Function.update_self ..
  unfold Folders.childName at htemp
  by_cases hroot : p = privateFidIpmsubtree
  · rw [if_pos hroot] at htemp
    split at htemp
    · exact absurd htemp (by simp)
    · obtain rfl := Option.some.inj htemp
      rw [hroot] at hf ⊢
      exact ⟨[(f, n)], .top hf, allowed_custom hcustom, by simp [pathName], .inl rfl⟩
  · rw [if_neg hroot] at htemp
    cases hparent : s.folders.parentName p with
    | none =>
      rw [hparent] at htemp
      exact absurd htemp (by simp)
    | some decodedName =>
      have hknown : Known s.folders p := known_of_parentName (by rw [hparent]; rfl)
      obtain ⟨c, hc, hallowed, hname⟩ := h.parentName hknown hroot
      rw [hparent] at htemp hname
      obtain rfl := Option.some.inj hname
      dsimp only at htemp
      split_ifs at htemp
      obtain rfl := Option.some.inj htemp
      exact ⟨c ++ [(f, n)], .sub hf hroot (hc.update_of_notMem (hnot c hc)),
        hallowed.append hc.ne_nil _, (pathName_concat hc.ne_nil).symm, hknown⟩

/-- A folder is added to the index, or the index stays. -/
lemma Inv.added (h : Inv s) {v : Option StoreFolder} (hcustom : privateFidCustom ≤ f)
    (hnot : ∀ k ∈ s.folders.ids, ∀ c, Path (memory s.store) privateFidIpmsubtree k c →
      f ∉ c.map Prod.fst) (hv : ∀ x, v = some x → x.parentId = p)
    (hdomain : Domain (Function.update s.store f v)) (hapart : Apart (Function.update s.store f v)) :
    Inv ⟨Function.update s.store f v,
      s.folders.addNotificationFolder (Function.update s.store f v) p f⟩ := by
  refine ⟨hdomain, hapart, ?_⟩
  dsimp only
  have hframe : ∀ k ∈ s.folders.ids, Row (memory (Function.update s.store f v)) s.folders k := by
    intro k hk
    rw [memory_update]
    exact (h.row k hk).frame (hnot k hk) (List.Subset.refl _) rfl rfl
  unfold Folders.addNotificationFolder
  rw [Function.update_self]
  cases v with
  | none => exact hframe
  | some x =>
    obtain rfl := hv x rfl
    dsimp only
    split
    · rename_i hmail
      cases htemp : s.folders.childName x.parentId x.displayName with
      | none => exact hframe
      | some temp =>
        have hmem := hdomain.memory (Function.update_self f (some x) s.store) hmail
        rw [fixedName_custom hcustom, Option.getD_none] at hmem
        have hparent : ∀ c, Path (memory s.store) privateFidIpmsubtree x.parentId c →
            f ∉ c.map Prod.fst := by
          intro c hc
          rcases known_of_childName (by rw [htemp]; rfl) with hroot | hbuiltin | hids
          · obtain ⟨q, m, hq, -⟩ := hc.exists_parent
            rw [hroot, h.good.root] at hq
            exact absurd hq (by simp)
          · obtain ⟨name, hname⟩ := Option.isSome_iff_exists.mp hbuiltin
            obtain rfl := hc.unique (h.domain.path_builtin hname)
            intro hf
            obtain rfl := List.mem_singleton.mp hf
            rw [fixedName_custom hcustom] at hname
            exact absurd hname (by simp)
          · exact hnot _ hids c hc
        obtain ⟨cf, hcf, hallowed, rfl, hknown⟩ := h.childName hcustom hparent htemp
        dsimp only
        unfold Folders.insert
        split
        · exact hframe
        · rename_i hnew
          have hfids : f ∉ s.folders.ids := fun hf => hnew (by simp [hf])
          intro k hk
          rcases List.mem_append.mp hk with hk | hk
          · have hkf : k ≠ f := fun hkf => hfids (hkf ▸ hk)
            rw [memory_update]
            exact (h.row k hk).frame (hnot k hk) (List.subset_append_left _ _)
              (Function.update_of_ne hkf ..) (Function.update_of_ne hkf ..)
          · obtain rfl := List.mem_singleton.mp hk
            refine ⟨⟨cf, ?_, hallowed, ?_⟩, ⟨x.displayName, ?_⟩, ?_⟩
            · rw [memory_update, hmem]
              exact hcf
            · rw [storedName, fixedName_custom hcustom]
              exact Function.update_self ..
            · rw [hmem]
              simp
            · show Known _ (Function.update s.folders.parentFid k x.parentId k)
              rw [Function.update_self]
              rcases hknown with hroot | hbuiltin | hids
              · exact .inl hroot
              · exact .inr (.inl hbuiltin)
              · exact .inr (.inr (List.mem_append_left _ hids))
    · exact hframe

/-! ### The operations -/

/-- What the store promises: ids are new, and the folders that users made are the ones moved. -/
def Promised (s : Mailbox) : Op → Prop
  | .created f _ => s.store f = none ∧ privateFidCustom ≤ f
  | .renamed _ _ _ => True
  | .moved f _ _ _ => privateFidCustom ≤ f

/-- What follows the copy of a name ends it: the C string that begins there is the name. -/
def Ends (name : Name) (rest : List UInt8) : Prop := cstr (name ++ rest) = name

/-- A folder that is moved goes under an indexed one, and where a name of the top level is copied
without its NUL, there is no folder below it or the memory behind it has one. -/
def Followed (s : Mailbox) : Op → Prop
  | .created _ _ => True
  | .renamed f name stack => f ∈ s.folders.ids → fixedName f = none →
      s.folders.parentFid f = privateFidIpmsubtree →
        (∀ k ∈ s.folders.ids, s.folders.parentFid k ≠ f) ∨
          Ends name ((s.folders.decoded f ++
            0 :: stack.drop ((s.folders.decoded f).length + 1)).drop name.length)
  | .moved f p name stack => f ∈ s.folders.ids → Known s.folders p ∧
      (p = privateFidIpmsubtree → (∀ k ∈ s.folders.ids, s.folders.parentFid k ≠ f) ∨
        Ends name (stack.drop name.length))

/-- The store keeps its promises, and the trees are in the domain. -/
structure Admitted (s : Mailbox) (op : Op) : Prop where
  promised : Promised s op
  domain : Domain (Mailbox.change s.store op)

/-- The condition on an operation. -/
structure Holds (s : Mailbox) (op : Op) : Prop where
  apart : Apart (Mailbox.change s.store op)
  followed : Followed s op

/-- A row whose folder stays as it is in the table in memory. -/
lemma Inv.same (h : Inv s) {v : Option StoreFolder}
    (hmem : memory (Function.update s.store f v) f = memory s.store f)
    (hdomain : Domain (Function.update s.store f v)) (hapart : Apart (Function.update s.store f v)) :
    Inv ⟨Function.update s.store f v, s.folders⟩ := by
  have hsame : memory (Function.update s.store f v) = memory s.store := by
    rw [memory_update, hmem, Function.update_eq_self]
  refine ⟨hdomain, hapart, ?_⟩
  rw [hsame]
  exact h.row

/-- The name of a row is taken apart at its last '/'. -/
lemma Inv.strrchr (h : Inv s) (hf : f ∈ s.folders.ids) (hcustom : fixedName f = none)
    (hmem : memory s.store f = some (p, n)) :
    s.folders.parentFid f = p ∧
      (p = privateFidIpmsubtree ∧ s.folders.decoded f = n ∧
          Path (memory s.store) privateFidIpmsubtree f [(f, n)] ∨
        p ≠ privateFidIpmsubtree ∧ ∃ c, Path (memory s.store) privateFidIpmsubtree p c ∧
          Path (memory s.store) privateFidIpmsubtree f (c ++ [(f, n)]) ∧ Allowed c ∧
          s.folders.decoded f = pathName c ++ 47 :: n) := by
  obtain ⟨c, hc, hallowed, hname⟩ := (h.row f hf).path
  obtain ⟨m, hm⟩ := (h.row f hf).parent
  rw [hmem] at hm
  obtain ⟨hp, -⟩ := Prod.mk.inj (Option.some.inj hm)
  rw [storedName, hcustom, Option.getD_none] at hname
  have hdecoded : s.folders.decoded f = pathName c := by
    rw [Folders.decoded, hname, decodeHex_encodeHex,
      cstr_of_notMem (h.good.clean.pathName_notMem hc)]
  refine ⟨hp.symm, ?_⟩
  obtain ⟨q, m', hq, hlast⟩ := hc.exists_parent
  rw [hmem] at hq
  obtain ⟨rfl, rfl⟩ := Prod.mk.inj (Option.some.inj hq)
  rcases hlast with ⟨hroot, rfl⟩ | ⟨hroot, d, hd, rfl⟩
  · exact .inl ⟨hroot, by simpa [pathName] using hdecoded, hc⟩
  · refine .inr ⟨hroot, d, hd, hc, ?_, by rw [hdecoded, pathName_concat hd.ne_nil]⟩
    obtain ⟨y, l, rfl⟩ := List.exists_cons_of_ne_nil hd.ne_nil
    exact hallowed

/-- The `UPDATE` of the row is not refused. -/
lemma Change.setParent {cf cf' : List (ℕ × Name)} (h : Change s T f p n cf cf') :
    s.folders.setParent f p (encodeHex (pathName cf')) = rewritten s.folders f p (pathName cf') := by
  have hpath := h.path'
  rw [← List.append_nil cf'] at hpath
  rw [Folders.setParent, if_neg]
  · rfl
  · intro htaken
    obtain ⟨j, hj, hname⟩ := List.any_eq_true.mp htaken
    rw [Bool.and_eq_true, decide_eq_true_eq, decide_eq_true_eq] at hname
    refine h.name_ne hpath hj hname.1 ?_
    rw [List.append_nil]
    exact hname.2

lemma Change.setName {cf cf' : List (ℕ × Name)} (h : Change s T f p n cf cf')
    (hparent : s.folders.parentFid f = p) :
    s.folders.setName f (encodeHex (pathName cf')) = rewritten s.folders f p (pathName cf') := by
  rw [← h.setParent, Folders.setName, Folders.setParent]
  split
  · rfl
  · rw [← hparent, Function.update_eq_self]

lemma Inv.mem_memory (h : Inv s) (hf : f ∈ s.folders.ids) (hcustom : fixedName f = none)
    (hx : s.store f = some x) :
    x.isMail ∧ memory s.store f = some (x.parentId, x.displayName) := by
  obtain ⟨m, hm⟩ := (h.row f hf).parent
  obtain ⟨x', hx', hmail, -, -⟩ := memory_eq_some hm
  rw [hx] at hx'
  obtain rfl := Option.some.inj hx'
  refine ⟨hmail, ?_⟩
  rw [h.domain.memory hx hmail, hcustom, Option.getD_none]

/-- The row of a folder below the IPM subtree is not too long to be decoded. -/
lemma Inv.length_name (h : Inv s) (hf : f ∈ s.folders.ids) (hcustom : fixedName f = none) :
    (s.folders.name f).length / 2 ≤ 512 := by
  obtain ⟨c, hc, -, hname⟩ := (h.row f hf).path
  have hlen := h.domain.path f c hc
  rw [hname, storedName, hcustom, Option.getD_none, length_encodeHex]
  omega

/-- An indexed folder gets another name. -/
lemma Inv.renamed_mem (h : Inv s) {stack : List UInt8} (hx : s.store f = some x)
    (hf : f ∈ s.folders.ids) (hcustom : fixedName f = none)
    (hdomain : Domain (Function.update s.store f (some { x with displayName := n })))
    (hapart : Apart (Function.update s.store f (some { x with displayName := n })))
    (hfollowed : Followed s (.renamed f n stack)) :
    Inv ⟨Function.update s.store f (some { x with displayName := n }),
      s.folders.modifyNotificationFolder
        (Function.update s.store f (some { x with displayName := n })) stack f⟩ := by
  obtain ⟨hmail, hmem⟩ := h.mem_memory hf hcustom hx
  have hself := Function.update_self f (some { x with displayName := n }) s.store
  have hmem' := hdomain.memory hself hmail
  rw [hcustom, Option.getD_none] at hmem'
  have htree := memory_update s.store f (some { x with displayName := n })
  rw [hmem'] at htree
  have hroot : f ≠ privateFidIpmsubtree := by
    rintro rfl
    rw [h.domain.root] at hx
    exact absurd hx (by simp)
  obtain ⟨hparent, hname⟩ := h.strrchr hf hcustom hmem
  have hclean := h.domain.clean f x hx
  have hlength := h.length_name hf hcustom
  have hnlen := hdomain.name f _ hself
  unfold Folders.modifyNotificationFolder
  rw [if_neg (by simp [hroot, hcustom, hf]; omega), hself]
  dsimp only
  by_cases hlast : Folders.lastName (s.folders.decoded f) = n
  · rw [if_pos (.inl hlast)]
    have hsame : x.displayName = n := by
      rw [← hlast, Folders.lastName]
      rcases hname with ⟨-, hdecoded, -⟩ | ⟨-, c, -, -, -, hdecoded⟩
      · rw [hdecoded, strrchr_of_notMem hclean.1]
      · rw [hdecoded, strrchr_append hclean.1]
        rfl
    exact h.same (by rw [hmem', hmem, hsame]) hdomain hapart
  · rw [if_neg (by rw [not_or]; exact ⟨hlast, by simpa using hnlen⟩)]
    refine ⟨hdomain, hapart, ?_⟩
    rcases hname with ⟨htop, hdecoded, hpath⟩ | ⟨hsub, c, hc, hpath, hallowed, hdecoded⟩
    · -- a folder of the top level: the name is copied over the old one
      have hpath' : Path (memory (Function.update s.store f (some { x with displayName := n })))
          privateFidIpmsubtree f [(f, n)] := .top (by rw [hmem', ← htop])
      have hchange : Change s _ f x.parentId n [(f, x.displayName)] [(f, n)] := {
        inv := h
        good := hdomain.good hapart
        mem := hf
        custom := hcustom
        tree := htree
        path := hpath
        path' := hpath'
        allowed := by
          obtain ⟨c, hc, hallowed, -⟩ := (h.row f hf).path
          obtain rfl := hc.unique hpath
          exact hallowed
        known := .inl htop }
      have hpn : pathName [(f, n)] = n := by simp [pathName]
      rw [Folders.renamed, hdecoded, strrchr_of_notMem hclean.1]
      dsimp only
      have hset := hchange.setName hparent
      rw [hpn] at hset
      rw [hset]
      have hends := hfollowed hf hcustom (hparent.trans htop)
      rw [hdecoded] at hends
      have hname : (∀ k ∈ s.folders.ids, s.folders.parentFid k ≠ f) ∨
          cstr (n ++ (x.displayName ++ 0 :: stack.drop (x.displayName.length + 1)).drop n.length) =
            pathName [(f, n)] := by rwa [hpn]
      have hren := hchange.renames hname
      have hrow := hchange.row hren
      rw [hpn] at hrow
      exact hrow
    · have hnot : f ∉ c.map Prod.fst := by
        have hnodup := hpath.nodup
        rw [List.map_append] at hnodup
        exact fun hmem => List.disjoint_of_nodup_append hnodup hmem (by simp)
      have hpath' : Path (memory (Function.update s.store f (some { x with displayName := n })))
          privateFidIpmsubtree f (c ++ [(f, n)]) := by
        refine .sub hmem' hsub ?_
        rw [htree]
        exact hc.update_of_notMem hnot
      have hlen := hdomain.path f _ hpath'
      have hpn : pathName (c ++ [(f, n)]) = pathName c ++ 47 :: n := pathName_concat hc.ne_nil
      have hchange : Change s _ f x.parentId n (c ++ [(f, x.displayName)]) (c ++ [(f, n)]) := {
        inv := h
        good := hdomain.good hapart
        mem := hf
        custom := hcustom
        tree := htree
        path := hpath
        path' := hpath'
        allowed := hallowed.append hc.ne_nil _
        known := hparent ▸ (h.row f hf).known }
      rw [Folders.renamed, hdecoded, strrchr_append hclean.1]
      dsimp only
      rw [if_neg (by rw [hpn, List.length_append, List.length_cons] at hlen; omega)]
      dsimp only
      rw [← hpn, hchange.setName hparent]
      exact hchange.row (hchange.renames (.inr rfl))

/-- A folder is renamed. -/
lemma Inv.renamed (h : Inv s) {stack : List UInt8}
    (hadmitted : Admitted s (.renamed f n stack)) (hholds : Holds s (.renamed f n stack)) :
    Inv (s.step (.renamed f n stack)) := by
  obtain ⟨-, hdomain⟩ := hadmitted
  obtain ⟨hapart, hfollowed⟩ := hholds
  unfold Mailbox.step
  dsimp only [Mailbox.change] at hdomain hapart ⊢
  cases hx : s.store f with
  | none =>
    rw [hx, Option.map_none] at hdomain hapart
    have hstay : s.folders.modifyNotificationFolder (Function.update s.store f none) stack f =
        s.folders := by
      unfold Folders.modifyNotificationFolder
      rw [Function.update_self]
      split <;> rfl
    rw [Option.map_none, hstay]
    refine h.same ?_ hdomain hapart
    unfold memory
    rw [Function.update_self, hx]
  | some x =>
    rw [hx, Option.map_some] at hdomain hapart
    rw [Option.map_some]
    by_cases hf : f ∈ s.folders.ids ∧ fixedName f = none
    · exact h.renamed_mem hx hf.1 hf.2 hdomain hapart hfollowed
    · have hstay : s.folders.modifyNotificationFolder
          (Function.update s.store f (some { x with displayName := n })) stack f = s.folders := by
        unfold Folders.modifyNotificationFolder
        rw [if_pos]
        rcases not_and_or.mp hf with hf | hf
        · exact .inr (.inr (.inl hf))
        · exact .inr (.inl (Option.isSome_iff_ne_none.mpr hf))
      rw [hstay]
      by_cases hcustom : fixedName f = none
      · have hmem : f ∉ s.folders.ids := fun hmem => hf ⟨hmem, hcustom⟩
        refine ⟨hdomain, hapart, fun k hk => ?_⟩
        rw [memory_update]
        exact (h.row k hk).frame (fun c hc => h.notMem_chain hk hmem hcustom hc)
          (List.Subset.refl _) rfl rfl
      · -- the name of a built-in folder is fixed
        obtain ⟨name, hname⟩ := Option.ne_none_iff_exists'.mp hcustom
        refine h.same ?_ hdomain hapart
        unfold memory
        rw [Function.update_self, hx, hname]
        rfl

/-- The new parent of a folder is not below it. -/
lemma notMem_parent {full : ℕ → Option (ℕ × Name)} {v : Name} {d : List (ℕ × Name)}
    (hroot : full privateFidIpmsubtree = none)
    (hd : Path (Function.update full f (some (p, v))) privateFidIpmsubtree f d)
    (hc : Path full privateFidIpmsubtree p c) : f ∉ c.map Prod.fst := by
  obtain ⟨q, m, hq, hlast⟩ := hd.exists_parent
  rw [Function.update_self] at hq
  obtain ⟨rfl, rfl⟩ := Prod.mk.inj (Option.some.inj hq)
  rcases hlast with ⟨rfl, -⟩ | ⟨-, d', hd', rfl⟩
  · obtain ⟨q, m, hq, -⟩ := hc.exists_parent
    rw [hroot] at hq
    exact absurd hq (by simp)
  · have hnodup := hd.nodup
    rw [List.map_append] at hnodup
    have hnot : f ∉ d'.map Prod.fst :=
      fun hmem => List.disjoint_of_nodup_append hnodup hmem (by simp)
    rwa [hc.unique (hd'.update_back hnot)]

/-- The folders along a path of the table in memory are those of the store. -/
lemma ids_of_memory {d : List (ℕ × Name)}
    (hc : Path (memory store) privateFidIpmsubtree k c)
    (hd : Path (fun f => (store f).map fun x => (x.parentId, x.displayName))
      privateFidIpmsubtree k d) : c.map Prod.fst = d.map Prod.fst := by
  induction hc generalizing d with
  | @top k n hk =>
    obtain ⟨x, hx, -, hp, -⟩ := memory_eq_some hk
    obtain ⟨q, m, hq, hlast⟩ := hd.exists_parent
    rw [hx] at hq
    obtain ⟨rfl, -⟩ := Prod.mk.inj (Option.some.inj hq)
    rcases hlast with ⟨-, rfl⟩ | ⟨hne, -⟩
    · rfl
    · exact absurd hp.symm hne
  | @sub k q n c hk hne hc ih =>
    obtain ⟨x, hx, -, rfl, -⟩ := memory_eq_some hk
    obtain ⟨q', m, hq, hlast⟩ := hd.exists_parent
    rw [hx] at hq
    obtain ⟨rfl, -⟩ := Prod.mk.inj (Option.some.inj hq)
    rcases hlast with ⟨hroot, -⟩ | ⟨-, d', hd', rfl⟩
    · exact absurd hroot hne
    · rw [List.map_append, List.map_append, ih hd']
      rfl

/-- A folder is moved. -/
lemma Inv.moved (h : Inv s) {stack : List UInt8}
    (hadmitted : Admitted s (.moved f p n stack)) (hholds : Holds s (.moved f p n stack)) :
    Inv (s.step (.moved f p n stack)) := by
  obtain ⟨hpromised, hdomain⟩ := hadmitted
  obtain ⟨hapart, hfollowed⟩ := hholds
  have hcustom : fixedName f = none := fixedName_custom hpromised
  unfold Mailbox.step
  dsimp only [Mailbox.change] at hdomain hapart ⊢
  by_cases hf : f ∈ s.folders.ids
  · obtain ⟨m, hm⟩ := (h.row f hf).parent
    obtain ⟨x, hx, hmail, -, -⟩ := memory_eq_some hm
    rw [hx, Option.map_some] at hdomain hapart ⊢
    have hself := Function.update_self f (some { x with parentId := p, displayName := n }) s.store
    have hmem' := hdomain.memory hself hmail
    rw [hcustom, Option.getD_none] at hmem'
    have htree := memory_update s.store f (some { x with parentId := p, displayName := n })
    rw [hmem'] at htree
    obtain ⟨hknown, hends⟩ := hfollowed hf
    have hnlen := hdomain.name f _ hself
    obtain ⟨d, hd⟩ := hdomain.tree f _ hself
    have hfull : (fun k => (Function.update s.store f
        (some { x with parentId := p, displayName := n }) k).map fun x =>
          (x.parentId, x.displayName)) =
        Function.update (fun k => (s.store k).map fun x => (x.parentId, x.displayName)) f
          (some (p, n)) := by
      funext k
      by_cases hk : k = f
      · subst hk
        rw [Function.update_self, Function.update_self]
        rfl
      · rw [Function.update_of_ne hk, Function.update_of_ne hk]
    rw [hfull] at hd
    have hnot : ∀ c, Path (memory s.store) privateFidIpmsubtree p c → f ∉ c.map Prod.fst := by
      intro c hc
      obtain ⟨q, m, hq, -⟩ := hc.exists_parent
      obtain ⟨y, hy, -⟩ := memory_eq_some hq
      obtain ⟨e, he⟩ := h.domain.tree p y hy
      rw [ids_of_memory hc he]
      exact notMem_parent (by rw [h.domain.root]; rfl) hd he
    have hsome : (s.folders.childName p n).isSome := by
      unfold Folders.childName
      split
      · rw [if_neg (by simpa using hnlen)]
        rfl
      · rename_i hroot
        obtain ⟨c, hc, -, hname⟩ := h.parentName hknown hroot
        have hlen := hdomain.path f (c ++ [(f, n)]) (by
          refine .sub hmem' hroot ?_
          rw [htree]
          exact hc.update_of_notMem (hnot c hc))
        rw [pathName_concat hc.ne_nil, List.length_append, List.length_cons] at hlen
        rw [hname]
        dsimp only
        rw [if_neg (by simpa using hnlen), if_neg (by omega)]
        rfl
    obtain ⟨temp, htemp⟩ := Option.isSome_iff_exists.mp hsome
    obtain ⟨cf, hcf, hallowed, rfl, -⟩ := h.childName hpromised hnot htemp
    rw [← htree] at hcf
    obtain ⟨c, hc, -⟩ := (h.row f hf).path
    have hchange : Change s _ f p n c cf := {
      inv := h
      good := hdomain.good hapart
      mem := hf
      custom := hcustom
      tree := htree
      path := hc
      path' := hcf
      allowed := hallowed
      known := hknown }
    refine ⟨hdomain, hapart, ?_⟩
    unfold Folders.moveNotificationFolder
    rw [if_pos hf, hself]
    dsimp only
    rw [htemp]
    dsimp only
    rw [hchange.setParent]
    refine hchange.row (hchange.renames ?_)
    split
    · rename_i hroot
      have hpn : pathName cf = n := by
        rw [Folders.childName, if_pos hroot] at htemp
        split at htemp
        · exact absurd htemp (by simp)
        · exact (Option.some.inj htemp).symm
      rw [hpn]
      exact hends hroot
    · exact .inr rfl
  · have hadd := h.added (f := f) (p := p)
      (v := (s.store f).map fun x => { x with parentId := p, displayName := n }) hpromised
      (fun k hk c hc => h.notMem_chain hk hf hcustom hc) (by
        intro x hx
        obtain ⟨y, -, rfl⟩ := Option.map_eq_some_iff.mp hx
        rfl) hdomain hapart
    unfold Folders.moveNotificationFolder
    rw [if_neg hf]
    exact hadd

/-- **Every operation keeps the rows right.** -/
lemma Inv.step (h : Inv s) (hadmitted : Admitted s op) (hholds : Holds s op) :
    Inv (s.step op) := by
  cases op with
  | created f x =>
    obtain ⟨⟨hnew, hcustom⟩, hdomain⟩ := hadmitted
    refine h.added hcustom (fun k _ c hc hmem => ?_) (fun y hy => ?_) hdomain hholds.apart
    · obtain ⟨⟨j, m⟩, hj, rfl⟩ := List.mem_map.mp hmem
      obtain ⟨q, hq⟩ := hc.label hj
      obtain ⟨y, hy, -⟩ := memory_eq_some hq
      rw [hnew] at hy
      exact absurd hy (by simp)
    · rw [Option.some.inj hy]
  | renamed f n stack => exact h.renamed hadmitted hholds
  | moved f p n stack => exact h.moved hadmitted hholds

/-- The name of every indexed folder is the one that a run over the whole mailbox has for it. -/
def Agrees (s : Mailbox) : Prop :=
  ∀ k ∈ s.folders.ids, ∃ turns, ∀ fuel ≥ turns, syncName s.store fuel k = some (s.folders.name k)

lemma Inv.agrees (h : Inv s) : Agrees s := by
  intro k hk
  obtain ⟨c, hc, hallowed, hname⟩ := (h.row k hk).path
  refine ⟨c.length, fun fuel hfuel => ?_⟩
  rw [syncName_of_path hc h.good.limits h.apart.named hallowed hfuel, hname]

/-- The index that a run over the whole mailbox has made. -/
structure Synced (s : Mailbox) : Prop where
  domain : Domain s.store
  apart : Apart s.store
  mem : ∀ k name turns, (∀ fuel ≥ turns, syncName s.store fuel k = some name) → k ∈ s.folders.ids
  name : Agrees s
  parent : ∀ k ∈ s.folders.ids, (s.store k).map StoreFolder.parentId = some (s.folders.parentFid k)

lemma allowed_of_sync {turns : ℕ} (hp : Path (memory store) privateFidIpmsubtree k c)
    (h : ∀ fuel ≥ turns, (syncName store fuel k).isSome) : Allowed c := by
  intro g hg
  have hfuel : c.length ≤ turns + c.length := Nat.le_add_left ..
  have htop := getTopFolderId_of_path hp hfuel
  rw [hg] at htop
  have hsome := h (turns + c.length) (Nat.le_add_right ..)
  unfold syncName at hsome
  rw [← Option.some.inj htop] at hsome
  split_ifs at hsome with _ hout
  · exact absurd hsome (by simp)
  · exact absurd hsome (by simp)
  · exact not_or.mp hout

lemma Synced.good (h : Synced s) : Good (memory s.store) := h.domain.good h.apart

lemma Synced.path (h : Synced s) (hk : k ∈ s.folders.ids) :
    ∃ c, Path (memory s.store) privateFidIpmsubtree k c ∧ Allowed c ∧
      s.folders.name k = storedName k c := by
  obtain ⟨turns, hturns⟩ := h.name k hk
  have hpath : ∃ c, Path (memory s.store) privateFidIpmsubtree k c := by
    cases hname : fixedName k with
    | some name => exact ⟨_, h.domain.path_builtin hname⟩
    | none =>
      have hsync := hturns turns le_rfl
      unfold syncName at hsync
      split_ifs at hsync
      rw [getEncodedName, hname] at hsync
      obtain ⟨joined, hjoined, -⟩ := Option.map_eq_some_iff.mp hsync
      obtain ⟨names, hnames, -⟩ := Option.bind_eq_some_iff.mp hjoined
      exact path_of_climb hnames
  obtain ⟨c, hc⟩ := hpath
  have hallowed := allowed_of_sync hc fun fuel hfuel => by rw [hturns fuel hfuel]; rfl
  have hsync := syncName_of_path hc h.good.limits h.apart.named hallowed
    (Nat.le_add_left c.length turns)
  rw [hturns _ (Nat.le_add_right ..)] at hsync
  exact ⟨c, hc, hallowed, Option.some.inj hsync⟩

lemma Synced.inv (h : Synced s) : Inv s := by
  refine ⟨h.domain, h.apart, fun k hk => ?_⟩
  obtain ⟨c, hc, hallowed, hname⟩ := h.path hk
  obtain ⟨p, n, hp, hlast⟩ := hc.exists_parent
  obtain ⟨x, hx, -, rfl, -⟩ := memory_eq_some hp
  have hparent : x.parentId = s.folders.parentFid k := by
    have := h.parent k hk
    rw [hx] at this
    exact Option.some.inj this
  rw [hparent] at hp hlast
  refine ⟨⟨c, hc, hallowed, hname⟩, ⟨n, hp⟩, ?_⟩
  rcases hlast with ⟨hroot, -⟩ | ⟨-, d, hd, rfl⟩
  · exact .inl hroot
  · refine .inr (.inr (h.mem _ (storedName (s.folders.parentFid k) d) d.length fun fuel hfuel => ?_))
    refine syncName_of_path hd h.good.limits h.apart.named ?_ hfuel
    obtain ⟨y, l, rfl⟩ := List.exists_cons_of_ne_nil hd.ne_nil
    exact hallowed

/-- **From an index that a run over the mailbox has made, in every history of folders created,
renamed and moved whose steps meet the condition, every indexed folder has the name that a run
over the mailbox as it is by then computes for it.** -/
theorem agrees_of_run {s₀ : Mailbox} {ops : List Op} (hstart : Synced s₀)
    (hrun : Run (fun s op => Admitted s op ∧ Holds s op) (fun s op s' => s.step op = s') s₀ ops s) :
    Agrees s := by
  refine Inv.agrees (hrun.invariant (I := Inv) ?_ hstart.inv)
  rintro s op s' h ⟨hadmitted, hholds⟩ rfl
  exact h.step hadmitted hholds

/-! ### A folder with another one below it -/

/-- The built-in folders, a folder of the top level and a folder "c" in it. -/
def sampleStore (a : Name) : Store :=
  Function.update (Function.update
    (fun f => (fixedName f).map fun name =>
      ⟨privateFidIpmsubtree, name, some (bytes "IPF.Note"), false⟩)
    30 (some ⟨privateFidIpmsubtree, a, some (bytes "IPF.Note"), false⟩))
    31 (some ⟨30, bytes "c", some (bytes "IPF.Note"), false⟩)

def sampleFolders (a : Name) : Folders where
  ids := [0x0d, 0x0e, 0x0a, 0x0b, 0x17, 30, 31]
  parentFid k := if k = 31 then 30 else privateFidIpmsubtree
  name k := if k = 30 then encodeHex a else if k = 31 then encodeHex (a ++ 47 :: bytes "c")
    else (fixedName k).getD []

/-- The name of the folder of the top level is like no other. -/
structure Sampled (a : Name) : Prop where
  clean : 47 ∉ a ∧ 0 ∉ a
  ne_nil : a ≠ []
  length : a.length < 256
  fixed : ∀ f, fixedName f ≠ some a

lemma sampleStore_cases {a : Name} (h : sampleStore a f = some x) :
    f = 31 ∧ x = ⟨30, bytes "c", some (bytes "IPF.Note"), false⟩ ∨
    f = 30 ∧ x = ⟨privateFidIpmsubtree, a, some (bytes "IPF.Note"), false⟩ ∨
    f ≠ 31 ∧ f ≠ 30 ∧ ∃ name, fixedName f = some name ∧
      x = ⟨privateFidIpmsubtree, name, some (bytes "IPF.Note"), false⟩ := by
  unfold sampleStore at h
  by_cases h31 : f = 31
  · subst h31
    rw [Function.update_self] at h
    exact .inl ⟨rfl, (Option.some.inj h).symm⟩
  · rw [Function.update_of_ne h31] at h
    by_cases h30 : f = 30
    · subst h30
      rw [Function.update_self] at h
      exact .inr (.inl ⟨rfl, (Option.some.inj h).symm⟩)
    · rw [Function.update_of_ne h30] at h
      obtain ⟨name, hname, rfl⟩ := Option.map_eq_some_iff.mp h
      exact .inr (.inr ⟨h31, h30, name, hname, rfl⟩)

lemma sample_memory {a : Name} (h : memory (sampleStore a) f = some (p, n)) :
    f = 31 ∧ p = 30 ∧ n = bytes "c" ∨ f = 30 ∧ p = privateFidIpmsubtree ∧ n = a ∨
      fixedName f = some n ∧ p = privateFidIpmsubtree := by
  obtain ⟨x, hx, -, rfl, rfl⟩ := memory_eq_some h
  rcases sampleStore_cases hx with ⟨rfl, rfl⟩ | ⟨rfl, rfl⟩ | ⟨-, -, name, hname, rfl⟩
  · exact .inl ⟨rfl, rfl, rfl⟩
  · exact .inr (.inl ⟨rfl, rfl, rfl⟩)
  · rw [hname]
    exact .inr (.inr ⟨rfl, rfl⟩)

lemma sample_path {a : Name} (h : Path (memory (sampleStore a)) privateFidIpmsubtree f c) :
    f = 31 ∧ c = [(30, a), (31, bytes "c")] ∨ f = 30 ∧ c = [(30, a)] ∨
      ∃ n, fixedName f = some n ∧ c = [(f, n)] := by
  obtain ⟨p, n, hf, hlast⟩ := h.exists_parent
  rcases sample_memory hf with ⟨rfl, rfl, rfl⟩ | ⟨rfl, rfl, rfl⟩ | ⟨hname, rfl⟩
  · rcases hlast with ⟨hroot, -⟩ | ⟨-, d, hd, rfl⟩
    · exact absurd hroot (by decide)
    · obtain ⟨p, m, hm, hlast'⟩ := hd.exists_parent
      rcases sample_memory hm with ⟨h31, -⟩ | ⟨-, rfl, rfl⟩ | ⟨hname, -⟩
      · exact absurd h31 (by decide)
      · rcases hlast' with ⟨-, rfl⟩ | ⟨hne, -⟩
        · exact .inl ⟨rfl, rfl⟩
        · exact absurd rfl hne
      · exact absurd hname (by rw [show fixedName 30 = none from rfl]; simp)
  · rcases hlast with ⟨-, rfl⟩ | ⟨hne, -⟩
    · exact .inr (.inl ⟨rfl, rfl⟩)
    · exact absurd rfl hne
  · rcases hlast with ⟨-, rfl⟩ | ⟨hne, -⟩
    · exact .inr (.inr ⟨n, hname, rfl⟩)
    · exact absurd rfl hne

lemma sample_domain {a : Name} (ha : Sampled a) : Domain (sampleStore a) where
  root := rfl
  builtin b hb := by
    obtain ⟨name, hname⟩ := Option.isSome_iff_exists.mp hb
    have h31 : b ≠ 31 := by
      rintro rfl
      exact absurd hb (by decide)
    have h30 : b ≠ 30 := by
      rintro rfl
      exact absurd hb (by decide)
    refine ⟨⟨privateFidIpmsubtree, name, some (bytes "IPF.Note"), false⟩, ?_, rfl, by rfl⟩
    rw [sampleStore, Function.update_of_ne h31, Function.update_of_ne h30, hname]
    rfl
  tree f x hx := by
    rcases sampleStore_cases hx with ⟨rfl, rfl⟩ | ⟨rfl, rfl⟩ | ⟨-, -, name, -, rfl⟩
    · exact ⟨_, .sub (p := 30) rfl (by decide) (.top rfl)⟩
    · exact ⟨_, .top rfl⟩
    · exact ⟨_, .top (by rw [hx]; rfl)⟩
  clean f x hx := by
    rcases sampleStore_cases hx with ⟨rfl, rfl⟩ | ⟨rfl, rfl⟩ | ⟨-, -, name, hname, rfl⟩
    · decide
    · exact ha.clean
    · exact ⟨(fixedName_clean hname).1, (fixedName_clean hname).2.1⟩
  name f x hx := by
    rcases sampleStore_cases hx with ⟨rfl, rfl⟩ | ⟨rfl, rfl⟩ | ⟨-, -, name, hname, rfl⟩
    · decide
    · exact ha.length
    · exact (fixedName_clean hname).2.2
  path f c hc := by
    have hlen := ha.length
    rcases sample_path hc with ⟨-, rfl⟩ | ⟨-, rfl⟩ | ⟨n, hname, rfl⟩
    · simp [pathName, bytes]
      omega
    · simp [pathName]
      omega
    · have hlen := (fixedName_clean hname).2.2
      simp [pathName]
      omega

lemma fixedName_inj (h : fixedName f = some n) (h' : fixedName k = some n) : f = k := by
  unfold fixedName at h h'
  split_ifs at h h' with h₁ h₂ h₃ h₄ h₅ h₆ h₇ h₈ h₉ <;> first
    | omega
    | exact absurd (h.trans h'.symm) (by decide)

lemma sample_apart {a : Name} (ha : Sampled a) : Apart (sampleStore a) where
  named f n hf := by
    rcases sample_memory hf with ⟨-, hp, -⟩ | ⟨-, -, rfl⟩ | ⟨hname, -⟩
    · exact absurd hp (by decide)
    · exact ha.ne_nil
    · rintro rfl
      unfold fixedName at hname
      split_ifs at hname <;> exact absurd hname (by decide)
  distinct f g c d hc hd hlabels := by
    rcases sample_path hc with ⟨rfl, rfl⟩ | ⟨rfl, rfl⟩ | ⟨n, hn, rfl⟩ <;>
      rcases sample_path hd with ⟨rfl, rfl⟩ | ⟨rfl, rfl⟩ | ⟨m, hm, rfl⟩
    · rfl
    · exact absurd hlabels (by simp)
    · exact absurd hlabels (by simp)
    · exact absurd hlabels (by simp)
    · rfl
    · obtain rfl : a = m := (List.cons.inj hlabels).1
      exact absurd hm (ha.fixed g)
    · exact absurd hlabels (by simp)
    · obtain rfl : n = a := (List.cons.inj hlabels).1
      exact absurd hn (ha.fixed f)
    · obtain rfl : n = m := (List.cons.inj hlabels).1
      exact fixedName_inj hn hm

lemma sample_inv {a : Name} (ha : Sampled a) : Inv ⟨sampleStore a, sampleFolders a⟩ := by
  have hdomain := sample_domain ha
  have h30 : memory (sampleStore a) 30 = some (privateFidIpmsubtree, a) :=
    hdomain.memory (x := ⟨privateFidIpmsubtree, a, some (bytes "IPF.Note"), false⟩) rfl rfl
  have h31 : memory (sampleStore a) 31 = some (30, bytes "c") :=
    hdomain.memory (x := ⟨30, bytes "c", some (bytes "IPF.Note"), false⟩) rfl rfl
  have hbuiltin : ∀ k name, fixedName k = some name → (sampleFolders a).name k = name →
      (sampleFolders a).parentFid k = privateFidIpmsubtree →
      Row (memory (sampleStore a)) (sampleFolders a) k := by
    intro k name hname hstored hparent
    have hpath := hdomain.path_builtin hname
    refine ⟨⟨_, hpath, fun g hg => ?_, by rw [hstored, storedName, hname]; rfl⟩, ⟨name, ?_⟩,
      .inl hparent⟩
    · obtain rfl : k = g := Option.some.inj hg
      constructor
      · rintro rfl
        exact absurd hname (by rw [show fixedName privateFidOutbox = none from rfl]; simp)
      · rintro rfl
        exact absurd hname (by rw [show fixedName privateFidSyncIssues = none from rfl]; simp)
    · obtain ⟨p, n, hp, ⟨rfl, hlast⟩ | ⟨-, d, hd, hlast⟩⟩ := hpath.exists_parent
      · obtain ⟨-, rfl⟩ := Prod.mk.inj (List.cons.inj hlast).1
        rw [hp, hparent]
      · have hlen := congrArg List.length hlast
        have hpos := List.length_pos_iff.mpr hd.ne_nil
        simp only [List.length_append, List.length_singleton] at hlen
        omega
  refine ⟨hdomain, sample_apart ha, fun k hk => ?_⟩
  have hk : k = 0x0d ∨ k = 0x0e ∨ k = 0x0a ∨ k = 0x0b ∨ k = 0x17 ∨ k = 30 ∨ k = 31 := by
    simpa [sampleFolders] using hk
  have hpath : Path (memory (sampleStore a)) privateFidIpmsubtree 30 [(30, a)] := .top h30
  rcases hk with rfl | rfl | rfl | rfl | rfl | rfl | rfl
  · exact hbuiltin _ _ rfl rfl rfl
  · exact hbuiltin _ _ rfl rfl rfl
  · exact hbuiltin _ _ rfl rfl rfl
  · exact hbuiltin _ _ rfl rfl rfl
  · exact hbuiltin _ _ rfl rfl rfl
  · exact ⟨⟨_, hpath, allowed_custom le_rfl, by simp [sampleFolders, storedName, pathName,
      show fixedName 30 = none from rfl]⟩, ⟨a, h30⟩, .inl rfl⟩
  · refine ⟨⟨_, .sub h31 (by decide) hpath, (allowed_custom le_rfl).append (by simp) _, ?_⟩,
      ⟨bytes "c", h31⟩, .inr (.inr (by simp [sampleFolders]))⟩
    simp [sampleFolders, storedName, pathName, show fixedName 31 = none from rfl]

lemma sample_synced {a : Name} (ha : Sampled a) :
    Synced ⟨sampleStore a, sampleFolders a⟩ where
  domain := sample_domain ha
  apart := sample_apart ha
  mem k name turns hsync := by
    have hsome := hsync turns le_rfl
    unfold syncName at hsome
    split_ifs at hsome with hnone
    rw [Option.isNone_iff_eq_none] at hnone
    obtain ⟨⟨p, n⟩, hp⟩ := Option.ne_none_iff_exists'.mp hnone
    have hmem : k = 31 ∨ k = 30 ∨ (fixedName k).isSome := by
      rcases sample_memory hp with ⟨hk, -⟩ | ⟨hk, -⟩ | ⟨hk, -⟩
      · exact .inl hk
      · exact .inr (.inl hk)
      · exact .inr (.inr (by rw [hk]; rfl))
    rcases hmem with rfl | rfl | hk
    · simp [sampleFolders]
    · simp [sampleFolders]
    · unfold fixedName at hk
      split_ifs at hk <;> simp_all [sampleFolders]
  name := (sample_inv ha).agrees
  parent k hk := by
    obtain ⟨n, hn⟩ := ((sample_inv ha).row k hk).parent
    obtain ⟨x, hx, -, hp, -⟩ := memory_eq_some hn
    rw [hx, hp]
    rfl

lemma sample_change (a b : Name) (stack : List UInt8) :
    Mailbox.change (sampleStore a) (.renamed 30 b stack) = sampleStore b := by
  funext f
  unfold Mailbox.change sampleStore
  by_cases h30 : f = 30
  · subst h30
    rfl
  · dsimp only
    rw [Function.update_of_ne h30]
    by_cases h31 : f = 31
    · subst h31
      rfl
    · rw [Function.update_of_ne h31, Function.update_of_ne h30, Function.update_of_ne h31,
        Function.update_of_ne h30]

lemma sampled_bytes {a : Name} (hclean : 47 ∉ a ∧ 0 ∉ a) (hne : a ≠ []) (hlen : a.length < 256)
    (hfixed : a ∉ [bytes "inbox", bytes "draft", bytes "sent", bytes "trash", bytes "junk"]) :
    Sampled a := by
  refine ⟨hclean, hne, hlen, fun f hf => hfixed ?_⟩
  unfold fixedName at hf
  split_ifs at hf <;> obtain rfl := Option.some.inj hf <;> simp

/-- A folder of the top level with another one below it gets a name of the same length. -/
theorem agrees_of_run_hello : Agrees
    (Mailbox.step ⟨sampleStore (bytes "hello"), sampleFolders (bytes "hello")⟩
      (.renamed 30 (bytes "world") [])) := by
  have hworld : Sampled (bytes "world") :=
    sampled_bytes (by decide) (by decide) (by decide) (by decide)
  have hadmitted : Admitted ⟨sampleStore (bytes "hello"), sampleFolders (bytes "hello")⟩
      (.renamed 30 (bytes "world") []) :=
    ⟨trivial, by rw [sample_change]; exact sample_domain hworld⟩
  have hholds : Holds ⟨sampleStore (bytes "hello"), sampleFolders (bytes "hello")⟩
      (.renamed 30 (bytes "world") []) := by
    refine ⟨by rw [sample_change]; exact sample_apart hworld, fun _ _ _ => .inr ?_⟩
    unfold Ends
    decide +kernel
  exact agrees_of_run (sample_synced (sampled_bytes (by decide) (by decide) (by decide)
    (by decide))) (.cons ⟨hadmitted, hholds⟩ rfl (.nil _))

/-- A shorter name leaves the end of the old one in the names of the folders below. -/
theorem not_agrees_of_run : ¬ ∀ (s₀ s : Mailbox) (ops : List Op), Synced s₀ →
    Run Admitted (fun s op s' => s.step op = s') s₀ ops s → Agrees s := by
  intro h
  have hshort : Sampled (bytes "ab") :=
    sampled_bytes (by decide) (by decide) (by decide) (by decide)
  have hadmitted : Admitted ⟨sampleStore (bytes "hello"), sampleFolders (bytes "hello")⟩
      (.renamed 30 (bytes "ab") []) :=
    ⟨trivial, by rw [sample_change]; exact sample_domain hshort⟩
  have hagrees := h ⟨sampleStore (bytes "hello"), sampleFolders (bytes "hello")⟩ _
    [.renamed 30 (bytes "ab") []]
    (sample_synced (sampled_bytes (by decide) (by decide) (by decide) (by decide)))
    (.cons hadmitted rfl (.nil _))
  obtain ⟨turns, hturns⟩ := hagrees 31 (by decide +kernel)
  have hright : ∀ fuel ≥ 2, syncName (sampleStore (bytes "ab")) fuel 31 =
      some (encodeHex (bytes "ab/c")) := by
    intro fuel hfuel
    obtain ⟨fuel, rfl⟩ := Nat.exists_eq_add_of_le' hfuel
    rfl
  have hsame := hturns (turns + 2) (Nat.le_add_right ..)
  rw [show (Mailbox.step ⟨sampleStore (bytes "hello"), sampleFolders (bytes "hello")⟩
    (.renamed 30 (bytes "ab") [])).store = sampleStore (bytes "ab") from
      sample_change (bytes "hello") (bytes "ab") [],
    hright _ (Nat.le_add_left ..)] at hsame
  revert hsame
  decide +kernel

end SteepSystem.MailEngine.Names
