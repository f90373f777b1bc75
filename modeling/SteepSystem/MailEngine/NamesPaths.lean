import SteepSystem.Lib.TreePaths
import SteepSystem.MailEngine.Names

/-!
Encoded names read as paths: the hexadecimal form is undone by the decoding, and what a run over
the whole mailbox computes for a folder is the form of the names along its path.
-/

namespace SteepSystem.MailEngine.Names

open SteepSystem.Lib.CStrings SteepSystem.Lib.TreePaths

variable {mem : ℕ → Option (ℕ × Name)} {store : Store} {f g k fuel : ℕ} {n s : Name}
  {c d : List (ℕ × Name)}

/-! ### Hexadecimal form -/

lemma digit_code {v : ℕ} (h : v < 16) : digit (code v) = some v := by
  interval_cases v <;> rfl

lemma strtol16_codes {v w : ℕ} (hv : v < 16) (hw : w < 16) :
    strtol16 0 [code v, code w] = 16 * v + w := by
  simp only [strtol16, digit_code hv, digit_code hw]
  omega

lemma encodeHex_cons (x : UInt8) (s : Name) :
    encodeHex (x :: s) = code (x.toNat / 16) :: code (x.toNat % 16) :: encodeHex s := rfl

@[simp] lemma decodeHex_encodeHex (s : Name) : decodeHex (encodeHex s) = s := by
  induction s with
  | nil => rfl
  | cons x s ih =>
    have hx := x.toNat_lt
    rw [encodeHex_cons, decodeHex, ih, strtol16_codes (by omega) (by omega), Nat.div_add_mod,
      UInt8.ofNat_toNat]

lemma encodeHex_inj : encodeHex s = encodeHex n ↔ s = n := by
  refine ⟨fun h => ?_, fun h => by rw [h]⟩
  rw [← decodeHex_encodeHex s, h, decodeHex_encodeHex]

@[simp] lemma length_encodeHex (s : Name) : (encodeHex s).length = 2 * s.length := by
  induction s with
  | nil => rfl
  | cons x s ih =>
    rw [encodeHex_cons, List.length_cons, List.length_cons, ih, List.length_cons]
    omega

lemma isHex_of_mem_encodeHex {x : UInt8} (h : x ∈ encodeHex s) : (digit x).isSome := by
  obtain ⟨y, -, hy⟩ := List.mem_flatMap.mp h
  have hlt := y.toNat_lt
  rcases List.mem_cons.mp hy with rfl | hy
  · rw [digit_code (by omega)]
    rfl
  · obtain rfl := List.mem_singleton.mp hy
    rw [digit_code (by omega)]
    rfl

/-- The fixed names are no hexadecimal forms. -/
lemma fixedName_ne_encodeHex (h : fixedName f = some n) (s : Name) : n ≠ encodeHex s := by
  have hnot : ∃ x ∈ n, digit x = none := by
    unfold fixedName at h
    split_ifs at h <;> obtain rfl := Option.some.inj h <;> decide
  rintro rfl
  obtain ⟨x, hx, hnone⟩ := hnot
  have hsome := isHex_of_mem_encodeHex hx
  rw [hnone] at hsome
  exact absurd hsome (by simp)

/-! ### Paths -/

/-- The names along a path, with a '/' between them. -/
def pathName : List (ℕ × Name) → Name
  | [] => []
  | x :: rest => x.2 ++ rest.flatMap fun y => 47 :: y.2

lemma pathName_concat (hc : c ≠ []) : pathName (c ++ [(f, n)]) = pathName c ++ 47 :: n := by
  cases c with
  | nil => exact absurd rfl hc
  | cons x rest => simp [pathName]

/-- What is stored for a folder. -/
def storedName (f : ℕ) (c : List (ℕ × Name)) : Name := (fixedName f).getD (encodeHex (pathName c))

/-- No name has a '/' or a NUL in it. -/
def Clean (T : ℕ → Option (ℕ × Name)) : Prop := ∀ f p n, T f = some (p, n) → 47 ∉ n ∧ 0 ∉ n

lemma Clean.of_mem (hT : Clean mem) (hp : Path mem f g c) (hn : (k, n) ∈ c) :
    47 ∉ n ∧ 0 ∉ n := by
  obtain ⟨p, hk⟩ := hp.label hn
  exact hT _ _ _ hk

lemma takeWhile_name (hn : 47 ∉ n) (s : Name) :
    (n ++ 47 :: s).takeWhile (· != 47) = n ∧ (n ++ 47 :: s).dropWhile (· != 47) = 47 :: s := by
  have hall : ∀ x ∈ n, (x != 47) = true := by
    intro x hx
    rw [bne_iff_ne]
    rintro rfl
    exact hn hx
  rw [List.takeWhile_append_of_pos hall, List.dropWhile_append_of_pos hall]
  simp

/-- The names can be told from the path. -/
lemma labels_of_pathName {c d : List (ℕ × Name)} (hc : ∀ x ∈ c, 47 ∉ x.2) (hd : ∀ x ∈ d, 47 ∉ x.2)
    (hne : c ≠ []) (hne' : d ≠ []) (h : pathName c = pathName d) :
    c.map Prod.snd = d.map Prod.snd := by
  induction c generalizing d with
  | nil => exact absurd rfl hne
  | cons x c ih =>
    obtain ⟨y, d, rfl⟩ := List.exists_cons_of_ne_nil hne'
    have hx := hc x (List.mem_cons_self ..)
    have hy := hd y (List.mem_cons_self ..)
    have hcut : ∀ (z : ℕ × Name) (l : List (ℕ × Name)), pathName (z :: l) =
        if l = [] then z.2 else z.2 ++ 47 :: pathName l := by
      intro z l
      cases l <;> simp [pathName]
    rw [hcut, hcut] at h
    split_ifs at h with hc₀ hd₀ hd₀
    · subst hc₀ hd₀
      simp [h]
    · rw [h] at hx
      exact absurd (List.mem_append_right _ (List.mem_cons_self ..)) hx
    · rw [← h] at hy
      exact absurd (List.mem_append_right _ (List.mem_cons_self ..)) hy
    · have hfirst : x.2 = y.2 := by
        rw [← (takeWhile_name hx (pathName c)).1, h, (takeWhile_name hy _).1]
      have hrest : pathName c = pathName d := by
        rw [hfirst, List.append_cancel_left_eq] at h
        exact (List.cons.inj h).2
      rw [List.map_cons, List.map_cons, hfirst, ih (fun z hz => hc z (List.mem_cons_of_mem _ hz))
        (fun z hz => hd z (List.mem_cons_of_mem _ hz)) hc₀ hd₀ hrest]

lemma Clean.pathName_notMem (hT : Clean mem) (hp : Path mem f g c) : 0 ∉ pathName c := by
  intro h
  cases c with
  | nil => exact absurd h List.not_mem_nil
  | cons x rest =>
    rcases List.mem_append.mp h with h | h
    · exact (hT.of_mem hp (List.mem_cons_self ..)).2 h
    · obtain ⟨y, hy, h⟩ := List.mem_flatMap.mp h
      rcases List.mem_cons.mp h with h | h
      · exact absurd h (by decide)
      · exact (hT.of_mem hp (List.mem_cons_of_mem _ hy)).2 h

lemma cstr_of_notMem (h : 0 ∉ s) : cstr s = s := by
  rw [cstr, List.takeWhile_eq_self_iff]
  intro x hx
  rw [bne_iff_ne]
  rintro rfl
  exact h hx

lemma strrchr_append (hn : 47 ∉ n) (s : Name) :
    Folders.strrchr (s ++ 47 :: n) = some (s, 47 :: n) := by
  have hrev : (s ++ 47 :: n).reverse = n.reverse ++ 47 :: s.reverse := by simp
  have hn' : 47 ∉ n.reverse := by simpa using hn
  rw [Folders.strrchr, if_pos (by simp), hrev, (takeWhile_name hn' _).1, (takeWhile_name hn' _).2]
  simp

lemma strrchr_of_notMem (hn : 47 ∉ n) : Folders.strrchr n = none := if_neg hn

/-! ### What the run over the mailbox computes -/

/-- The lengths that the code checks. -/
structure Limits (T : ℕ → Option (ℕ × Name)) : Prop where
  name : ∀ f p n, T f = some (p, n) → n.length < 256
  path : ∀ f c, Path T privateFidIpmsubtree f c → (pathName c).length < 512

/-- A folder of the top level has a name. -/
def Named (T : ℕ → Option (ℕ × Name)) : Prop :=
  ∀ f n, T f = some (privateFidIpmsubtree, n) → n ≠ []

lemma climb_of_path (hp : Path mem privateFidIpmsubtree f c) (hfuel : c.length ≤ fuel) :
    climb mem fuel f = some (c.map Prod.snd) := by
  induction hp generalizing fuel with
  | @top f n hf =>
    obtain ⟨fuel, rfl⟩ := Nat.exists_eq_add_of_le' hfuel
    simp [climb, hf]
  | @sub f p n c hf hne hp ih =>
    rw [List.length_append, List.length_singleton] at hfuel
    obtain ⟨fuel, rfl⟩ := Nat.exists_eq_add_of_le' (Nat.one_le_of_lt hfuel)
    simp [climb, hf, hne, ih (Nat.le_of_succ_le_succ hfuel)]

lemma path_of_climb {names : List Name} (h : climb mem fuel f = some names) :
    ∃ c, Path mem privateFidIpmsubtree f c := by
  induction fuel generalizing f names with
  | zero => exact absurd h (by simp [climb])
  | succ fuel ih =>
    rw [climb] at h
    cases hf : mem f with
    | none =>
      rw [hf] at h
      exact absurd h (by simp)
    | some x =>
      obtain ⟨p, n⟩ := x
      rw [hf] at h
      dsimp only at h
      split_ifs at h with hp
      · exact ⟨_, .top (hp ▸ hf)⟩
      · obtain ⟨names', hrest, -⟩ := Option.map_eq_some_iff.mp h
        obtain ⟨c, hc⟩ := ih hrest
        exact ⟨_, .sub hf hp hc⟩

lemma getTopFolderId_of_path (hp : Path mem privateFidIpmsubtree f c) (hfuel : c.length ≤ fuel) :
    c.head?.map Prod.fst = some (getTopFolderId mem fuel f) := by
  induction hp generalizing fuel with
  | @top f n hf =>
    obtain ⟨fuel, rfl⟩ := Nat.exists_eq_add_of_le' hfuel
    simp [getTopFolderId, hf]
  | @sub f p n c hf hne hp ih =>
    rw [List.length_append, List.length_singleton] at hfuel
    obtain ⟨fuel, rfl⟩ := Nat.exists_eq_add_of_le' (Nat.one_le_of_lt hfuel)
    obtain ⟨x, rest, rfl⟩ := List.exists_cons_of_ne_nil hp.ne_nil
    have htop := ih (Nat.le_of_succ_le_succ hfuel)
    simp [getTopFolderId, hf, hne]
    simpa using htop

lemma joinFrom_written {names : List Name} (hs : s ≠ []) (hnames : ∀ n ∈ names, n.length < 256)
    (hlen : (s ++ names.flatMap (47 :: ·)).length < 512) :
    joinFrom s names = some (s ++ names.flatMap (47 :: ·)) := by
  induction names generalizing s with
  | nil => simp [joinFrom]
  | cons n rest ih =>
    have hn := hnames n (List.mem_cons_self ..)
    have hsplit : s ++ (n :: rest).flatMap (47 :: ·) =
        (s ++ [47] ++ n) ++ rest.flatMap (47 :: ·) := by simp
    rw [hsplit] at hlen ⊢
    have hs' : s.length ≠ 0 := fun h => hs (List.length_eq_zero_iff.mp h)
    have hroom : ¬ (s ++ [47]).length + n.length ≥ 512 := by
      rw [List.length_append, List.length_append] at hlen
      omega
    simp only [joinFrom]
    rw [if_neg (by omega), if_pos hs', if_neg hroom]
    exact ih (by simp) (fun m hm => hnames m (List.mem_cons_of_mem _ hm)) hlen

lemma Path.head_name (hp : Path mem privateFidIpmsubtree f c) :
    ∃ g n rest, c = (g, n) :: rest ∧ mem g = some (privateFidIpmsubtree, n) := by
  obtain ⟨⟨g, n⟩, rest, rfl⟩ := List.exists_cons_of_ne_nil hp.ne_nil
  have hg := Path.of_append (c := []) hp
  obtain ⟨p, m, hm, ⟨rfl, hlast⟩ | ⟨-, d, hd, hlast⟩⟩ := hg.exists_parent
  · obtain ⟨-, rfl⟩ := Prod.mk.inj (List.cons.inj hlast).1
    exact ⟨g, n, rest, rfl, hm⟩
  · have hlen := congrArg List.length hlast
    have hpos := List.length_pos_iff.mpr hd.ne_nil
    simp only [List.nil_append, List.length_append, List.length_singleton] at hlen
    omega

lemma joinFrom_of_path (hp : Path mem privateFidIpmsubtree f c) (hlimits : Limits mem)
    (hnamed : Named mem) : joinFrom [] (c.map Prod.snd) = some (pathName c) := by
  obtain ⟨g, n, rest, rfl, hg⟩ := Path.head_name hp
  have hlen := hlimits.path f _ hp
  have hnames : ∀ m ∈ ((g, n) :: rest).map Prod.snd, m.length < 256 := by
    intro m hm
    obtain ⟨⟨k, m⟩, hmem, rfl⟩ := List.mem_map.mp hm
    obtain ⟨p, hk⟩ := hp.label hmem
    exact hlimits.name _ _ _ hk
  have hn := hnames n (List.mem_cons_self ..)
  have hrest := joinFrom_written (hnamed g n hg)
    (fun m (hm : m ∈ rest.map Prod.snd) => hnames m (List.mem_cons_of_mem _ hm))
    (by simpa [pathName, List.flatMap_map] using hlen)
  change joinFrom [] (n :: rest.map Prod.snd) = _
  rw [joinFrom, if_neg (by omega)]
  simp only [List.length_nil, ne_eq, not_true_eq_false, if_false, List.nil_append]
  rw [if_neg (by simp; omega), hrest]
  simp [pathName, List.flatMap_map]

/-- The folders that `mail_engine_sync_mailbox` leaves out by the folder they are under. -/
def Allowed (c : List (ℕ × Name)) : Prop :=
  ∀ g, c.head?.map Prod.fst = some g → g ≠ privateFidOutbox ∧ g ≠ privateFidSyncIssues

/-- **The name that the run over the mailbox has for a folder is the form of its path.** -/
theorem syncName_of_path (hp : Path (memory store) privateFidIpmsubtree f c)
    (hlimits : Limits (memory store)) (hnamed : Named (memory store)) (hallowed : Allowed c)
    (hfuel : c.length ≤ fuel) : syncName store fuel f = some (storedName f c) := by
  obtain ⟨p, n, hf, -⟩ := hp.exists_parent
  obtain ⟨hout, hsync⟩ := hallowed _ (getTopFolderId_of_path hp hfuel)
  rw [syncName, if_neg (by simp [hf]), if_neg (by simp [hout, hsync]), getEncodedName, storedName]
  cases fixedName f with
  | some name => rfl
  | none =>
    dsimp only
    rw [climb_of_path hp hfuel, Option.bind_some, joinFrom_of_path hp hlimits hnamed]
    rfl

end SteepSystem.MailEngine.Names
