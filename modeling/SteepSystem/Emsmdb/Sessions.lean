import Mathlib.Order.Bounds.Basic
import SteepSystem.HashTable
import SteepSystem.Lib.CStrings
import SteepSystem.Lib.Runs

/-!
The session tables of `emsmdb_interface.c`: the sessions by their GUID, and for each user the list
of sessions in the order of `cxr`. A step is one call.
-/

namespace SteepSystem.Emsmdb.Sessions

open SteepSystem.Lib.CStrings SteepSystem.Lib.Runs

/-- What fits in `username[256]` with its end. -/
abbrev Username := {name : List UInt8 // name.length < 256}

def Username.lower (u : Username) : Username :=
  ⟨u.1.map tolower, (List.length_map _).trans_lt u.2⟩

/-- `HANDLE_DATA`, with the fields that the tables depend on. -/
structure HandleData where
  username : Username
  cxr : ℕ
  processing : Bool
  occupied : Bool
  deriving DecidableEq

def maxHandlePerUser : ℕ := 100

variable {γ : Type} [DecidableEq γ]

/-- `handleHash` is `g_handle_hash`, whose values are the sessions, and `userHash` is
`g_user_hash`, whose lists hold pointers to them. `logmaps` counts the object trees. -/
structure Tables (γ : Type) where
  handleHash : HashTable γ HandleData
  userHash : HashTable Username (List γ)
  logmaps : ℕ

/-- `str_hash_add` where the buffer pool may be out of memory. -/
def strHashAdd {κ ν : Type} [DecidableEq κ] (ptbl : HashTable κ ν) (allocates : Bool) (key : κ)
    (value : ν) : ℤ × HashTable κ ν :=
  if ptbl.items.length < ptbl.capacity ∧ allocates = false then (-3, ptbl) else ptbl.add key value

/-- `verifies` is what `common_util_verify_cpid` says; the others are what the allocations give,
if they are made. -/
structure Request (γ : Type) where
  username : Username
  guid : γ
  verifies : Bool
  handleAlloc : Bool
  logmapAlloc : Bool
  userAlloc : Bool

/-- `emsmdb_interface_alloc_cxr`: the walk over the list from the number `i` on. -/
def allocCxr (cxr : γ → ℕ) (guid : γ) : ℕ → List γ → Option (ℕ × List γ)
  | i, [] => if 0xFFFF < i then none else some (i, [guid])
  | i, g :: plist =>
    if 0xFFFF < i then none
    else if i < cxr g then some (i, guid :: g :: plist)
    else (allocCxr cxr guid (i + 1) plist).map fun r => (r.1, g :: r.2)

namespace Tables

def init (handles users : ℕ) : Tables γ := ⟨.init handles, .init users, 0⟩

/-- The `cxr` that a pointer in a list leads to. -/
def cxr (s : Tables γ) (g : γ) : ℕ := (s.handleHash.query g).elim 0 HandleData.cxr

/-- The session is in the table, and its user's list is there. -/
def link (s : Tables γ) (r : Request γ) (handle : HandleData) (plist : List γ) :
    Option ℕ × Tables γ :=
  match allocCxr s.cxr r.guid 1 plist with
  | none =>
    let userHash := if plist.isEmpty then s.userHash.remove r.username.lower else s.userHash
    (none, { s with userHash, handleHash := s.handleHash.remove r.guid, logmaps := s.logmaps - 1 })
  | some (cxr, plist) =>
    (some cxr, { s with
      handleHash := s.handleHash.store r.guid { handle with cxr }
      userHash := s.userHash.store r.username.lower plist })

/-- `emsmdb_interface_create_handle`, with the number of the new session. -/
def createHandle (s : Tables γ) (r : Request γ) : Option ℕ × Tables γ :=
  if !r.verifies then (none, s)
  else
    let username := r.username.lower
    let handle := { username, cxr := 0, processing := false, occupied := false : HandleData }
    match strHashAdd s.handleHash r.handleAlloc r.guid handle with
    | (1, handleHash) =>
      if !r.logmapAlloc then (none, { s with handleHash := handleHash.remove r.guid })
      else
        let s := { s with handleHash, logmaps := s.logmaps + 1 }
        let unwound := { s with
          handleHash := handleHash.remove r.guid, logmaps := s.logmaps - 1 }
        match s.userHash.query username with
        | none =>
          match strHashAdd s.userHash r.userAlloc username [] with
          | (1, userHash) => { s with userHash }.link r handle []
          | _ => (none, unwound)
        | some plist =>
          if maxHandlePerUser ≤ plist.length then (none, unwound)
          else s.link r handle plist
    | _ => (none, s)

/-- `emsmdb_interface_remove_handle`; it waits while the notifications are occupied. -/
def removeHandle (s : Tables γ) (guid : γ) : Option (Tables γ) :=
  match s.handleHash.query guid with
  | none => some s
  | some handle =>
    if handle.processing then some s
    else if handle.occupied then none
    else
      let userHash := match s.userHash.query handle.username with
        | none => s.userHash
        | some plist =>
          let plist := plist.erase guid
          let userHash := s.userHash.store handle.username plist
          if plist.isEmpty then userHash.remove handle.username else userHash
      some { userHash, handleHash := s.handleHash.remove guid, logmaps := s.logmaps - 1 }

/-- What the other functions do to a session under `g_lock`. -/
def mark (s : Tables γ) (guid : γ) (processing occupied : Bool) : Tables γ :=
  match s.handleHash.query guid with
  | none => s
  | some handle =>
    { s with handleHash := s.handleHash.store guid { handle with processing, occupied } }

end Tables

inductive Call (γ : Type)
  | create (r : Request γ)
  | remove (guid : γ)
  | mark (guid : γ) (processing occupied : Bool)

def Tables.step (s : Tables γ) : Call γ → Option (Tables γ)
  | .create r => some (s.createHandle r).2
  | .remove guid => s.removeHandle guid
  | .mark guid processing occupied => some (s.mark guid processing occupied)

/-- The session belongs to the user. -/
def Tables.Has (s : Tables γ) (u : Username) (g : γ) : Prop :=
  ∃ handle, s.handleHash.query g = some handle ∧ handle.username = u

structure Tidy (s : Tables γ) : Prop where
  /-- No GUID and no user is in a table twice. -/
  handles : s.handleHash.Keyed
  users : s.userHash.Keyed
  ascending : ∀ u plist, s.userHash.query u = some plist → (plist.map s.cxr).Pairwise (· < ·)
  positive : ∀ u plist, s.userHash.query u = some plist → ∀ g ∈ plist, 1 ≤ s.cxr g
  /-- A session is in the list of its user exactly when its GUID is in the table. -/
  listed : ∀ u g, (∃ plist, s.userHash.query u = some plist ∧ g ∈ plist) ↔ s.Has u g
  /-- There is a list for a user exactly while the user has a session. -/
  inhabited : ∀ u, (∃ plist, s.userHash.query u = some plist) ↔ ∃ g, s.Has u g
  logmaps : s.logmaps = s.handleHash.items.length

/-! ### The Number of a Session -/

omit [DecidableEq γ] in
/-- The walk ends at the smallest free number, and puts the session where it keeps the order. -/
lemma allocCxr_spec {cxr : γ → ℕ} (guid : γ) {plist : List γ} {i : ℕ}
    (hasc : (plist.map cxr).Pairwise (· < ·)) (hge : ∀ g ∈ plist, i ≤ cxr g)
    (hroom : i + plist.length ≤ 0xFFFF) :
    ∃ c l, allocCxr cxr guid i plist = some (c, l) ∧ l.Perm (guid :: plist) ∧
      IsLeast {j | i ≤ j ∧ j ∉ plist.map cxr} c ∧
      ∀ cxr' : γ → ℕ, cxr' guid = c → (∀ g ∈ plist, cxr' g = cxr g) →
        (l.map cxr').Pairwise (· < ·) := by
  induction plist generalizing i with
  | nil =>
    simp only [List.length_nil, Nat.add_zero] at hroom
    refine ⟨i, [guid], by rw [allocCxr, if_neg (by omega)], .refl _, ?_, by simp⟩
    exact ⟨by simp, fun j hj => hj.1⟩
  | cons g plist ih =>
    rw [List.map_cons, List.pairwise_cons] at hasc
    rw [List.length_cons] at hroom
    have hlt : ∀ g' ∈ plist, cxr g < cxr g' := fun g' hg' =>
      hasc.1 _ (List.mem_map_of_mem hg')
    have hg : i ≤ cxr g := hge g List.mem_cons_self
    by_cases hfree : i < cxr g
    · refine ⟨i, guid :: g :: plist, ?_, .refl _, ⟨⟨le_rfl, ?_⟩, fun j hj => hj.1⟩, ?_⟩
      · rw [allocCxr, if_neg (by omega), if_pos hfree]
      · intro hmem
        rcases List.mem_cons.mp hmem with heq | hmem
        · omega
        · obtain ⟨g', hg', heq⟩ := List.mem_map.mp hmem
          have := hlt g' hg'
          omega
      · intro cxr' hguid hold
        have hsame : (g :: plist).map cxr' = (g :: plist).map cxr := List.map_congr_left hold
        rw [List.map_cons, hsame, hguid]
        refine List.pairwise_cons.mpr ⟨?_, List.pairwise_cons.mpr hasc⟩
        intro c hc
        obtain ⟨g', hg', rfl⟩ := List.mem_map.mp hc
        rcases List.mem_cons.mp hg' with rfl | hg'
        · exact hfree
        · exact hfree.trans (hlt g' hg')
    · -- the number of `g` is `i` itself
      have hi : cxr g = i := by omega
      obtain ⟨c, l, hl, hperm, ⟨hc, hmin⟩, hsorted⟩ :=
        ih hasc.2 (fun g' hg' => by have := hlt g' hg'; omega) (i := i + 1) (by omega)
      refine ⟨c, g :: l, ?_, ?_, ⟨⟨by have := hc.1; omega, ?_⟩, ?_⟩, ?_⟩
      · rw [allocCxr, if_neg (by omega), if_neg hfree, hl]
        rfl
      · exact (hperm.cons g).trans (.swap guid g plist)
      · intro hmem
        rcases List.mem_cons.mp hmem with heq | hmem
        · have := hc.1
          omega
        · exact hc.2 hmem
      · rintro j ⟨hj, hjmem⟩
        rw [List.map_cons, List.mem_cons, not_or] at hjmem
        exact hmin ⟨by omega, hjmem.2⟩
      · intro cxr' hguid hold
        have hg' : cxr' g = i := (hold g List.mem_cons_self).trans hi
        rw [List.map_cons, hg']
        refine List.pairwise_cons.mpr
          ⟨?_, hsorted cxr' hguid fun g' hg' => hold g' (List.mem_cons_of_mem _ hg')⟩
        intro b hb
        obtain ⟨g', hg', rfl⟩ := List.mem_map.mp hb
        rcases List.mem_cons.mp (hperm.mem_iff.mp hg') with rfl | hmem
        · rw [hguid]
          exact hc.1
        · rw [hold g' (List.mem_cons_of_mem _ hmem), ← hi]
          exact hlt g' hmem

/-! ### Creation -/

lemma strHashAdd_cases {κ ν : Type} [DecidableEq κ] (ptbl : HashTable κ ν) (allocates : Bool)
    (key : κ) (value : ν) :
    ptbl.query key = none ∧
        strHashAdd ptbl allocates key value = (1, ⟨ptbl.capacity, ptbl.items ++ [(key, value)]⟩) ∨
      (strHashAdd ptbl allocates key value).1 ≠ 1 := by
  unfold strHashAdd
  split
  · exact .inr (by simp)
  · by_cases h : ptbl.items.length < ptbl.capacity ∧ ptbl.query key = none
    · exact .inl ⟨h.2, HashTable.add_of_room h.1 h.2⟩
    · exact .inr (HashTable.add_fst_ne_one h)

/-- The list of the user, or none yet. -/
def Tables.list (s : Tables γ) (u : Username) : List γ := (s.userHash.query u).getD []

/-- The tables with one more session, whose number and user's list are given. -/
structure Linked (s t : Tables γ) (r : Request γ) (cxr : ℕ) (plist : List γ) : Prop where
  fresh : s.handleHash.query r.guid = none
  handles : t.handleHash.Keyed
  users : t.userHash.Keyed
  handle : ∀ g, t.handleHash.query g = if g = r.guid then
    some ⟨r.username.lower, cxr, false, false⟩ else s.handleHash.query g
  list : ∀ u, t.userHash.query u =
    if u = r.username.lower then some plist else s.userHash.query u
  logmaps : t.logmaps = s.logmaps + 1
  length : t.handleHash.items.length = s.handleHash.items.length + 1

variable {s t : Tables γ} {r : Request γ}

lemma Tidy.ascending_list (h : Tidy s) (u : Username) :
    ((s.list u).map s.cxr).Pairwise (· < ·) ∧ ∀ g ∈ s.list u, 1 ≤ s.cxr g := by
  unfold Tables.list
  cases hq : s.userHash.query u with
  | none => simp
  | some plist => exact ⟨h.ascending u plist hq, h.positive u plist hq⟩

lemma Tidy.mem_list (h : Tidy s) {u : Username} {g : γ} : g ∈ s.list u ↔ s.Has u g := by
  rw [← h.listed u g]
  unfold Tables.list
  cases hq : s.userHash.query u with
  | none => simp
  | some plist => simp

/-- Where the user's list has room, the call links the new session to it. -/
lemma link_spec (h : Tidy s) {handleHash : HashTable γ HandleData}
    {userHash : HashTable Username (List γ)}
    (hfresh : s.handleHash.query r.guid = none)
    (hhandles : handleHash = ⟨s.handleHash.capacity, s.handleHash.items ++
      [(r.guid, ⟨r.username.lower, 0, false, false⟩)]⟩)
    (hkeyed : userHash.Keyed)
    (huser : ∀ u, userHash.query u =
      if u = r.username.lower then some (s.list u) else s.userHash.query u)
    (hroom : (s.list r.username.lower).length < maxHandlePerUser) :
    ∃ cxr plist t, Tables.link ⟨handleHash, userHash, s.logmaps + 1⟩ r
        ⟨r.username.lower, 0, false, false⟩ (s.list r.username.lower) = (some cxr, t) ∧
      Linked s t r cxr plist ∧ plist.Perm (r.guid :: s.list r.username.lower) ∧
      IsLeast {j | 1 ≤ j ∧ j ∉ (s.list r.username.lower).map s.cxr} cxr ∧
      (plist.map t.cxr).Pairwise (· < ·) := by
  set s₁ : Tables γ := ⟨handleHash, userHash, s.logmaps + 1⟩ with hs₁
  have hquery₁ : ∀ g, handleHash.query g = if g = r.guid then
      some ⟨r.username.lower, 0, false, false⟩ else s.handleHash.query g := by
    intro g
    rw [hhandles, HashTable.query_append hfresh]
  have hne : ∀ g ∈ s.list r.username.lower, g ≠ r.guid := by
    rintro g hg rfl
    obtain ⟨handle, hq, -⟩ := h.mem_list.mp hg
    rw [hfresh] at hq
    cases hq
  have hcxr₁ : ∀ g ∈ s.list r.username.lower, s₁.cxr g = s.cxr g := by
    intro g hg
    simp only [Tables.cxr, hs₁]
    rw [hquery₁, if_neg (hne g hg)]
  have hmap : (s.list r.username.lower).map s₁.cxr = (s.list r.username.lower).map s.cxr :=
    List.map_congr_left hcxr₁
  obtain ⟨hasc, hpos⟩ := h.ascending_list r.username.lower
  have hasc₁ : ((s.list r.username.lower).map s₁.cxr).Pairwise (· < ·) := hmap ▸ hasc
  have hpos₁ : ∀ g ∈ s.list r.username.lower, 1 ≤ s₁.cxr g := by
    intro g hg
    rw [hcxr₁ g hg]
    exact hpos g hg
  obtain ⟨c, plist, halloc, hperm, hleast, hsorted⟩ := allocCxr_spec r.guid hasc₁ hpos₁
    (by unfold maxHandlePerUser at hroom; omega)
  rw [hmap] at hleast
  refine ⟨c, plist, _, by rw [Tables.link, halloc], ?_, hperm, hleast, ?_⟩
  · refine ⟨hfresh, ?_, ?_, ?_, ?_, rfl, ?_⟩
    · rw [HashTable.Keyed, HashTable.keys_store]
      change HashTable.Keyed handleHash
      rw [hhandles]
      exact h.handles.append hfresh
    · rw [HashTable.Keyed, HashTable.keys_store]
      exact hkeyed
    · intro g
      simp only [HashTable.query_store, hs₁]
      rw [hquery₁, hquery₁]
      by_cases hg : g = r.guid <;> simp [hg]
    · intro v
      simp only [HashTable.query_store, hs₁]
      rw [huser, huser]
      by_cases hv : v = r.username.lower <;> simp [hv]
    · simp [HashTable.store, hs₁, hhandles]
  · apply hsorted
    · simp only [Tables.cxr, HashTable.query_store, hs₁]
      rw [hquery₁]
      simp
    · intro g hg
      simp only [Tables.cxr, HashTable.query_store, if_neg (hne g hg)]

/-- A creation that fails leaves the tables as they were; another one links the session. -/
lemma createHandle_spec (h : Tidy s) (r : Request γ) :
    s.createHandle r = (none, s) ∨
      ∃ cxr plist t, s.createHandle r = (some cxr, t) ∧ Linked s t r cxr plist ∧
        plist.Perm (r.guid :: s.list r.username.lower) ∧
        IsLeast {j | 1 ≤ j ∧ j ∉ (s.list r.username.lower).map s.cxr} cxr ∧
        (plist.map t.cxr).Pairwise (· < ·) := by
  unfold Tables.createHandle
  by_cases hv : r.verifies = true
  swap
  · exact .inl (by simp [hv])
  rw [if_neg (by simp [hv])]
  simp only
  rcases strHashAdd_cases s.handleHash r.handleAlloc r.guid ⟨r.username.lower, 0, false, false⟩
    with ⟨hfresh, hadd⟩ | hadd
  swap
  · left
    split
    · rename_i heq
      exact absurd (congrArg Prod.fst heq) hadd
    · rfl
  rw [hadd]
  simp only
  by_cases hl : r.logmapAlloc = true
  swap
  · exact .inl (by simp [hl, HashTable.remove_append hfresh])
  rw [if_neg (by simp [hl])]
  cases hq : s.userHash.query r.username.lower with
  | none =>
    simp only
    have hlist : s.list r.username.lower = [] := by simp [Tables.list, hq]
    rcases strHashAdd_cases s.userHash r.userAlloc r.username.lower ([] : List γ)
      with ⟨-, hadd'⟩ | hadd'
    · rw [hadd']
      have hkeyed : HashTable.Keyed ⟨s.userHash.capacity,
          s.userHash.items ++ [(r.username.lower, ([] : List γ))]⟩ := h.users.append hq
      have hspec := link_spec (r := r) h hfresh rfl hkeyed (fun u => by
        rw [HashTable.query_append hq]
        by_cases hu : u = r.username.lower
        · rw [if_pos hu, if_pos hu, hu, hlist]
        · rw [if_neg hu, if_neg hu]) (by rw [hlist]; exact Nat.succ_pos _)
      rw [hlist] at hspec ⊢
      exact .inr hspec
    · left
      split
      · rename_i heq
        exact absurd (congrArg Prod.fst heq) hadd'
      · simp [HashTable.remove_append hfresh]
  | some plist =>
    simp only
    have hlist : s.list r.username.lower = plist := by simp [Tables.list, hq]
    split
    · exact .inl (by simp [HashTable.remove_append hfresh])
    · rename_i hroom
      have hspec := link_spec (r := r) h hfresh rfl h.users (fun u => by
        by_cases hu : u = r.username.lower
        · rw [if_pos hu, hu, hlist, hq]
        · rw [if_neg hu]) (by rw [hlist]; omega)
      rw [hlist] at hspec ⊢
      exact .inr hspec

section Linked

variable {cxr : ℕ} {plist : List γ}

lemma Linked.cxr_eq (h : Linked s t r cxr plist) (g : γ) :
    t.cxr g = if g = r.guid then cxr else s.cxr g := by
  unfold Tables.cxr
  rw [h.handle g]
  split <;> rfl

lemma Linked.has_iff (h : Linked s t r cxr plist) (u : Username) (g : γ) :
    t.Has u g ↔ if g = r.guid then u = r.username.lower else s.Has u g := by
  unfold Tables.Has
  rw [h.handle g]
  split
  · constructor
    · rintro ⟨handle, heq, rfl⟩
      cases heq
      rfl
    · rintro rfl
      exact ⟨_, rfl, rfl⟩
  · rfl

lemma Linked.ne_of_has (h : Linked s t r cxr plist) {u : Username} {g : γ} (hg : s.Has u g) :
    g ≠ r.guid := by
  rintro rfl
  obtain ⟨handle, hq, -⟩ := hg
  rw [h.fresh] at hq
  cases hq

lemma Linked.tidy (hl : Linked s t r cxr plist) (h : Tidy s)
    (hperm : plist.Perm (r.guid :: s.list r.username.lower)) (hpos : 1 ≤ cxr)
    (hsorted : (plist.map t.cxr).Pairwise (· < ·)) : Tidy t := by
  have hother : ∀ u l, s.userHash.query u = some l → ∀ g ∈ l, t.cxr g = s.cxr g := by
    intro u l hq g hg
    rw [hl.cxr_eq, if_neg (hl.ne_of_has ((h.listed u g).mp ⟨l, hq, hg⟩))]
  refine ⟨hl.handles, hl.users, ?_, ?_, ?_, ?_, ?_⟩
  · intro u l hq
    rw [hl.list] at hq
    split at hq
    · cases hq
      exact hsorted
    · rw [List.map_congr_left (hother u l hq)]
      exact h.ascending u l hq
  · intro u l hq g hg
    rw [hl.list] at hq
    split at hq
    · cases hq
      rw [hl.cxr_eq]
      split
      · exact hpos
      · rename_i hne
        exact (h.ascending_list _).2 g ((List.mem_cons.mp (hperm.mem_iff.mp hg)).resolve_left hne)
    · rw [hother u l hq g hg]
      exact h.positive u l hq g hg
  · intro u g
    rw [hl.has_iff, hl.list]
    by_cases hu : u = r.username.lower
    · subst hu
      simp only [↓reduceIte, Option.some.injEq, exists_eq_left', hperm.mem_iff, List.mem_cons,
        h.mem_list]
      by_cases hg : g = r.guid <;> simp [hg]
    · rw [if_neg hu, h.listed u g]
      by_cases hg : g = r.guid
      · rw [if_pos hg]
        exact ⟨fun hs => absurd hg (hl.ne_of_has hs), fun heq => absurd heq hu⟩
      · rw [if_neg hg]
  · intro u
    simp only [hl.list, hl.has_iff]
    by_cases hu : u = r.username.lower
    · simp only [if_pos hu]
      exact ⟨fun _ => ⟨r.guid, by rw [if_pos rfl]; exact hu⟩, fun _ => ⟨plist, rfl⟩⟩
    · simp only [if_neg hu, h.inhabited u]
      constructor
      · rintro ⟨g, hg⟩
        exact ⟨g, by rw [if_neg (hl.ne_of_has hg)]; exact hg⟩
      · rintro ⟨g, hg⟩
        by_cases hguid : g = r.guid
        · exact absurd (by simpa [hguid] using hg) hu
        · rw [if_neg hguid] at hg
          exact ⟨g, hg⟩
  · rw [hl.logmaps, hl.length, h.logmaps]

end Linked

lemma Tidy.createHandle (h : Tidy s) (r : Request γ) : Tidy (s.createHandle r).2 := by
  rcases createHandle_spec h r with heq | ⟨cxr, plist, t, heq, hl, hperm, hleast, hsorted⟩
  · rw [heq]
    exact h
  · rw [heq]
    exact hl.tidy h hperm hleast.1.1 hsorted

/-! ### Removal -/

lemma Tidy.nodup_list (h : Tidy s) {u : Username} {plist : List γ}
    (hq : s.userHash.query u = some plist) : plist.Nodup :=
  .of_map s.cxr ((h.ascending u plist hq).imp Nat.ne_of_lt)

/-- What the removal of a session leaves: the list of its user without it, or no list. -/
structure Removed (s t : Tables γ) (guid : γ) (username : Username) (plist : List γ) : Prop where
  has : s.Has username guid
  before : s.userHash.query username = some plist
  nodup : plist.Nodup
  list : ∀ u, t.userHash.query u =
    if u = username then if (plist.erase guid).isEmpty then none else some (plist.erase guid)
    else s.userHash.query u
  get : ∀ g, t.handleHash.query g = if g = guid then none else s.handleHash.query g
  handles : t.handleHash.Keyed
  users : t.userHash.Keyed
  logmaps : t.logmaps = t.handleHash.items.length

lemma Tidy.removeHandle_cases (h : Tidy s) {guid : γ} (hs : s.removeHandle guid = some t) :
    t = s ∨ ∃ username plist, Removed s t guid username plist := by
  unfold Tables.removeHandle at hs
  split at hs
  · exact .inl (Option.some.inj hs).symm
  · rename_i handle hhandle
    split_ifs at hs
    · exact .inl (Option.some.inj hs).symm
    · have hhas : s.Has handle.username guid := ⟨handle, hhandle, rfl⟩
      obtain ⟨plist, hq, -⟩ := (h.listed _ _).mpr hhas
      have hkeyed : (s.userHash.store handle.username (plist.erase guid)).Keyed := by
        rw [HashTable.Keyed, HashTable.keys_store]
        exact h.users
      rw [hq] at hs
      cases hs
      refine .inr ⟨handle.username, plist, hhas, hq, h.nodup_list hq, fun u => ?_,
        fun g => HashTable.query_remove h.handles, h.handles.remove, ?_, ?_⟩
      · dsimp only
        split
        · rw [HashTable.query_remove hkeyed, HashTable.query_store]
          split <;> rfl
        · rw [HashTable.query_store, hq]
          rfl
      · dsimp only
        split
        · exact hkeyed.remove
        · exact hkeyed
      · rw [HashTable.length_remove (by simp [hhandle]), h.logmaps]

section Removal

variable {guid : γ} {username u : Username} {plist l : List γ}

lemma Removed.has_iff (hr : Removed s t guid username plist) {g : γ} :
    t.Has u g ↔ g ≠ guid ∧ s.Has u g := by
  unfold Tables.Has
  rw [hr.get]
  by_cases hg : g = guid <;> simp [hg]

lemma Removed.cxr_eq (hr : Removed s t guid username plist) {g : γ} (hg : g ≠ guid) :
    t.cxr g = s.cxr g := by
  rw [Tables.cxr, hr.get, if_neg hg]
  rfl

/-- The session was in no other list. -/
lemma Removed.notMem (hr : Removed s t guid username plist) (h : Tidy s) (hu : u ≠ username)
    (hl : s.userHash.query u = some l) : guid ∉ l := by
  intro hm
  obtain ⟨handle, hq, rfl⟩ := (h.listed u guid).mp ⟨l, hl, hm⟩
  obtain ⟨handle', hq', rfl⟩ := hr.has
  rw [hq] at hq'
  cases hq'
  exact hu rfl

/-- Each list is an old one, without the session. -/
lemma Removed.sublist (hr : Removed s t guid username plist) (h : Tidy s)
    (hl : t.userHash.query u = some l) :
    ∃ l', s.userHash.query u = some l' ∧ l.Sublist l' ∧ guid ∉ l := by
  rw [hr.list] at hl
  split_ifs at hl with hu
  · cases hl
    exact ⟨plist, hu ▸ hr.before, List.erase_sublist, fun hm =>
      (hr.nodup.mem_erase_iff.mp hm).1 rfl⟩
  · exact ⟨l, hl, .refl _, hr.notMem h hu hl⟩

lemma Removed.listed (hr : Removed s t guid username plist) (h : Tidy s) (u : Username) (g : γ) :
    (∃ l, t.userHash.query u = some l ∧ g ∈ l) ↔ t.Has u g := by
  rw [hr.has_iff, ← h.listed u g, hr.list]
  by_cases hu : u = username
  · subst hu
    rw [if_pos rfl, hr.before]
    by_cases he : (plist.erase guid).isEmpty = true
    · rw [if_pos he]
      have hnil : ∀ g', g' ≠ guid → g' ∉ plist := by
        intro g' hne hm
        have := hr.nodup.mem_erase_iff.mpr ⟨hne, hm⟩
        rw [List.isEmpty_iff.mp he] at this
        cases this
      simp only [reduceCtorEq, false_and, exists_false, Option.some.injEq, exists_eq_left',
        false_iff, not_and]
      exact hnil g
    · rw [if_neg he]
      simp [hr.nodup.mem_erase_iff]
  · rw [if_neg hu]
    refine ⟨fun ⟨l, hl, hg⟩ => ⟨?_, l, hl, hg⟩, And.right⟩
    rintro rfl
    exact hr.notMem h hu hl hg

/-- No empty list is left. -/
lemma Removed.ne_nil (hr : Removed s t guid username plist) (h : Tidy s)
    (hl : t.userHash.query u = some l) : l ≠ [] := by
  rw [hr.list] at hl
  split_ifs at hl with hu he
  · cases hl
    exact fun hn => he (by rw [hn]; rfl)
  · obtain ⟨g, hg⟩ := (h.inhabited u).mp ⟨l, hl⟩
    obtain ⟨l', hl', hmem⟩ := (h.listed u g).mpr hg
    rw [hl] at hl'
    cases hl'
    exact List.ne_nil_of_mem hmem

lemma Removed.inhabited (hr : Removed s t guid username plist) (h : Tidy s) (u : Username) :
    (∃ l, t.userHash.query u = some l) ↔ ∃ g, t.Has u g := by
  constructor
  · rintro ⟨l, hl⟩
    obtain ⟨g, hg⟩ := List.exists_mem_of_ne_nil l (hr.ne_nil h hl)
    exact ⟨g, (hr.listed h u g).mp ⟨l, hl, hg⟩⟩
  · rintro ⟨g, hg⟩
    obtain ⟨l, hl, -⟩ := (hr.listed h u g).mpr hg
    exact ⟨l, hl⟩

end Removal

lemma Tidy.removeHandle (h : Tidy s) {guid : γ} (hs : s.removeHandle guid = some t) : Tidy t := by
  rcases h.removeHandle_cases hs with rfl | ⟨username, plist, hr⟩
  · exact h
  refine ⟨hr.handles, hr.users, fun u l hl => ?_, fun u l hl g hg => ?_, hr.listed h,
    hr.inhabited h, hr.logmaps⟩
  · obtain ⟨l', hl', hsub, hnot⟩ := hr.sublist h hl
    have hmap : l.map t.cxr = l.map s.cxr :=
      List.map_congr_left fun g hg => hr.cxr_eq fun heq => hnot (heq ▸ hg)
    rw [hmap]
    exact (h.ascending u l' hl').sublist (hsub.map _)
  · obtain ⟨l', hl', hsub, hnot⟩ := hr.sublist h hl
    rw [hr.cxr_eq fun heq => hnot (heq ▸ hg)]
    exact h.positive u l' hl' g (hsub.subset hg)

lemma Tidy.mark (h : Tidy s) (guid : γ) (processing occupied : Bool) :
    Tidy (s.mark guid processing occupied) := by
  unfold Tables.mark
  split
  · exact h
  · rename_i handle hhandle
    set handleHash := s.handleHash.store guid { handle with processing, occupied } with hdef
    have hget : ∀ g, handleHash.query g = if g = guid then
        some { handle with processing, occupied } else s.handleHash.query g := by
      intro g
      rw [hdef, HashTable.query_store, hhandle]
      rfl
    have hcxr : Tables.cxr { s with handleHash } = s.cxr := by
      funext g
      simp only [Tables.cxr, hget]
      by_cases hg : g = guid
      · simp [hg, hhandle]
      · rw [if_neg hg]
    have hhas : Tables.Has { s with handleHash } = s.Has := by
      funext u g
      simp only [Tables.Has, hget]
      by_cases hg : g = guid
      · simp [hg, hhandle]
      · rw [if_neg hg]
    refine ⟨?_, h.users, ?_, ?_, ?_, ?_, ?_⟩
    · rw [HashTable.Keyed, hdef, HashTable.keys_store]
      exact h.handles
    · rw [hcxr]
      exact h.ascending
    · rw [hcxr]
      exact h.positive
    · rw [hhas]
      exact h.listed
    · rw [hhas]
      exact h.inhabited
    · simpa [hdef, HashTable.store] using h.logmaps

/-! ### Runs -/

lemma tidy_init (handles users : ℕ) : Tidy (Tables.init handles users : Tables γ) := by
  refine ⟨List.nodup_nil, List.nodup_nil, ?_, ?_, ?_, ?_, rfl⟩ <;>
    simp [Tables.init, HashTable.init, HashTable.query, Tables.Has]

/-- **The tables agree after any calls, and a creation takes the smallest number of the user that
is free or changes nothing.** -/
theorem tidy_of_run {handles users : ℕ} {calls : List (Call γ)}
    (h : Run (fun _ _ => True) (fun s c t => s.step c = some t) (.init handles users) calls s) :
    Tidy s ∧ ∀ r : Request γ, match s.createHandle r with
      | (none, t) => t = s
      | (some cxr, _) =>
        IsLeast {j | 1 ≤ j ∧ ∀ g, s.Has r.username.lower g → s.cxr g ≠ j} cxr := by
  have htidy : Tidy s := by
    refine h.invariant (I := Tidy) ?_ (tidy_init handles users)
    intro s c t hs _ hstep
    cases c with
    | create r =>
      cases hstep
      exact hs.createHandle r
    | remove guid => exact hs.removeHandle hstep
    | mark guid processing occupied =>
      cases hstep
      exact hs.mark guid processing occupied
  refine ⟨htidy, fun r => ?_⟩
  rcases createHandle_spec htidy r with heq | ⟨cxr, plist, t, heq, -, -, hleast, -⟩
  · rw [heq]
  · rw [heq]
    have hset : {j | 1 ≤ j ∧ ∀ g, s.Has r.username.lower g → s.cxr g ≠ j} =
        {j | 1 ≤ j ∧ j ∉ (s.list r.username.lower).map s.cxr} := by
      ext j
      simp only [Set.mem_ofPred_eq, List.mem_map, htidy.mem_list, not_exists, not_and]
    exact hset ▸ hleast

/-- The user's first session is gone, and the next one takes its number. -/
theorem tidy_of_run_reuse : ∃ s : Tables ℕ, Tidy s ∧ s.handleHash.items.length = 1 ∧
    ∀ u : Username, u.lower = u → s.Has u 8 → s.cxr 8 = 2 ∧
      (s.createHandle ⟨u, 9, true, true, true, true⟩).1 = some 1 := by
  have hrun : Run (fun _ _ => True) (fun s c t => Tables.step s c = some t) (.init 4 2)
      [.create ⟨⟨bytes "ann", by decide⟩, 7, true, true, true, true⟩,
        .create ⟨⟨bytes "Ann", by decide⟩, 8, true, true, true, true⟩, .remove 7]
      (_ : Tables ℕ) := .cons trivial rfl <| .cons trivial rfl <| .cons trivial rfl (.nil _)
  refine ⟨_, (tidy_of_run hrun).1, rfl, ?_⟩
  rintro u - ⟨handle, heq, rfl⟩
  cases heq
  exact ⟨rfl, rfl⟩

end SteepSystem.Emsmdb.Sessions
