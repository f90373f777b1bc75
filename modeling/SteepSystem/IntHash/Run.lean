import SteepSystem.IntHash.Iteration

/-!
Sequences of operations on a table and any number of its iterators, against the abstract table.
-/

namespace SteepSystem.IntHash

open SteepSystem.DoubleLists

inductive Op (ν ι : Type)
  | add (key : Int32) (value : ν)
  | query (key : Int32)
  | remove (key : Int32)
  | iterInit (i : ι)
  /-- A whole iteration that removes the items whose keys are to go. -/
  | iterate (i : ι) (gone : Int32 → Bool)

/-- What an operation returns, or an iteration comes to. -/
inductive Result (ν : Type)
  | code (r : ℤ)
  | value (v : Option ν)
  | visited (l : List (Int32 × ν))
  deriving DecidableEq

/-- A table and its iterators. -/
structure Config (ν ι : Type) where
  ptbl : IntHashTable ν
  piter : ι → IntHashIter

variable {ν ι : Type}

/-- The same on a finite map: an iteration comes to every entry. -/
def apply (t : HashTable Int32 ν) : Op ν ι → Result ν × HashTable Int32 ν
  | .add key value => (.code (t.add key value).1, (t.add key value).2)
  | .query key => (.value (t.query key), t)
  | .remove key => (.code (if (t.query key).isSome then 1 else -2), t.remove key)
  | .iterInit _ => (.code 0, t)
  | .iterate _ gone => (.visited t.items, { t with items := t.items.filter fun e => !gone e.1 })

/-- A table is a finite map of at most its capacity of entries. -/
structure Holds (c : Config ν ι) (t : HashTable Int32 ν) : Prop where
  itemNum : c.ptbl.itemNum = t.items.length
  le : t.items.length ≤ t.capacity
  keyed : t.Keyed

/-- An iteration begins with an iterator at position zero, or over an empty table. -/
def Op.Fresh (c : Config ν ι) : Op ν ι → Prop
  | .iterate i _ => (c.piter i).iterCurrPos = 0 ∨ c.ptbl.itemNum = 0
  | _ => True

/-- What holds between the steps of a run. -/
structure Sound (c : Config ν ι) (capacity : ℕ) (index : Int32 → ℕ) (t : HashTable Int32 ν) :
    Prop where
  models : Models c.ptbl capacity index t
  iterCurrPos : ∀ i, 0 ≤ (c.piter i).iterCurrPos

variable {c c' : Config ν ι} {capacity fuel : ℕ} {index : Int32 → ℕ} {t : HashTable Int32 ν}
  {op : Op ν ι} {ops : List (Op ν ι)}

lemma Sound.holds (h : Sound c capacity index t) : Holds c t := by
  obtain ⟨s, bucket, hs, rfl⟩ := h.models
  refine ⟨?_, ?_, hs.content_keyed⟩
  · rw [hs.itemNum, content, List.length_map]
  · simp only [content, List.length_map]
    exact hs.le

lemma sound_init {maxItems : ℕ} {fn : Int32 → UInt64}
    (hinit : intHashInit maxItems fn = some c.ptbl) (hiters : ∀ i, c.piter i = intHashIterInit) :
    ∃ index, Sound c maxItems index (HashTable.init maxItems) := by
  unfold intHashInit at hinit
  split_ifs at hinit
  obtain ⟨ptbl, piter⟩ := c
  cases hinit
  refine ⟨_, ⟨[], fun _ => [], ⟨rfl, rfl, rfl, rfl, Nat.zero_le _,
    ⟨rfl, List.nodup_nil, by simp [libBufferInit]⟩,
    ⟨⟨rfl, rfl, List.nodup_nil, trivial⟩, fun _ => ⟨rfl, rfl, List.nodup_nil, trivial⟩⟩, by simp,
    by simp, List.nodup_nil⟩, rfl⟩, fun i => ?_⟩
  rw [hiters]
  exact le_refl _

variable [DecidableEq ι]

def exec (fuel : ℕ) (c : Config ν ι) : Op ν ι → Option (Result ν × Config ν ι)
  | .add key value => do
    let (r, ptbl) ← intHashAdd c.ptbl fuel key value
    some (.code r, { c with ptbl := ptbl })
  | .query key => do
    let v ← intHashQuery c.ptbl fuel key
    some (.value v, c)
  | .remove key => do
    let (r, ptbl) ← intHashRemove c.ptbl fuel key
    some (.code r, { c with ptbl := ptbl })
  | .iterInit i => some (.code 0, { c with piter := Function.update c.piter i intHashIterInit })
  | .iterate i gone => do
    let (l, ptbl, piter) ← iterate c.ptbl (c.piter i) fuel gone
    some (.visited l, ⟨ptbl, Function.update c.piter i piter⟩)

/-- In every state of a run, and the results are the same. -/
def Conforms (fuel : ℕ) (c : Config ν ι) (t : HashTable Int32 ν) : List (Op ν ι) → Prop
  | [] => Holds c t
  | op :: ops => Holds c t ∧
    ∃ c', exec fuel c op = some ((apply t op).1, c') ∧ Conforms fuel c' (apply t op).2 ops

def FreshRun (fuel : ℕ) (c : Config ν ι) : List (Op ν ι) → Prop
  | [] => True
  | op :: ops => op.Fresh c ∧ ∀ r c', exec fuel c op = some (r, c') → FreshRun fuel c' ops

/-- How far an iteration comes from where its iterator stands. -/
lemma Sound.iterate (h : Sound c capacity index t) (i : ι) (gone : Int32 → Bool)
    (hfuel : capacity < fuel) :
    ∃ c' p, (c.piter i).iterCurrPos = (p : ℕ) ∧
      exec fuel c (.iterate i gone) =
        some (.visited (t.items.take (t.items.length - p)), c') ∧
      Sound c' capacity index { t with
        items := (t.items.take (t.items.length - p)).filter (fun e => !gone e.1) ++
          t.items.drop (t.items.length - p) } := by
  obtain ⟨s, bucket, hs, rfl⟩ := h.models
  obtain ⟨p, hp⟩ := Int.eq_ofNat_of_zero_le (h.iterCurrPos i)
  obtain ⟨ptbl', piter', bucket', hiter, hrest, hpos⟩ := hs.iterate gone hp hfuel
  refine ⟨⟨ptbl', Function.update c.piter i piter'⟩, p, hp, ?_, ⟨_, _, hrest, ?_⟩, fun j => ?_⟩
  · simp [exec, hiter, content, List.map_take]
  · simp only [content, List.length_map, List.map_append, List.map_drop, ← List.map_take]
    rw [List.filter_map]
    rfl
  · by_cases hj : j = i
    · subst hj
      simp only [Function.update_self]
      exact hpos
    · simp only [Function.update_of_ne hj]
      exact h.iterCurrPos j

/-- **One step.** -/
theorem Sound.step (h : Sound c capacity index t) (hfresh : op.Fresh c)
    (hfuel : capacity < fuel) :
    ∃ c', exec fuel c op = some ((apply t op).1, c') ∧
      Sound c' capacity index (apply t op).2 := by
  cases op with
  | add key value =>
    obtain ⟨ptbl', hadd, hmodels⟩ := intHashAdd_spec key value h.models hfuel.le
    exact ⟨⟨ptbl', c.piter⟩, by simp [exec, apply, hadd], hmodels, h.iterCurrPos⟩
  | query key =>
    have hquery := intHashQuery_spec key h.models hfuel.le
    exact ⟨c, by simp [exec, apply, hquery], h⟩
  | remove key =>
    obtain ⟨ptbl', hremove, hmodels⟩ := intHashRemove_spec key h.models hfuel.le
    exact ⟨⟨ptbl', c.piter⟩, by simp [exec, apply, hremove], hmodels, h.iterCurrPos⟩
  | iterInit i =>
    refine ⟨_, rfl, h.models, fun j => ?_⟩
    by_cases hj : j = i
    · subst hj
      simp [intHashIterInit]
    · simp only [Function.update_of_ne hj]
      exact h.iterCurrPos j
  | iterate i gone =>
    obtain ⟨c', p, hp, hexec, hsound⟩ := h.iterate i gone hfuel
    -- from position zero it comes to the end, and an empty list has none
    have hall : t.items.length - p = t.items.length := by
      rcases hfresh with hzero | hnil
      · omega
      · have := h.holds.itemNum
        omega
    rw [hall, List.take_length] at hexec hsound
    rw [List.drop_length, List.append_nil] at hsound
    exact ⟨c', hexec, hsound⟩

/-- An iteration that begins elsewhere leaves items out. -/
lemma Sound.not_fresh (h : Sound c capacity index t) (hfresh : ¬ op.Fresh c)
    (hfuel : capacity < fuel) : exec fuel c op ≠ some ((apply t op).1, c') := by
  intro hexec
  cases op with
  | iterate i gone =>
    obtain ⟨c₁, p, hp, hexec₁, -⟩ := h.iterate i gone hfuel
    have hnum := h.holds.itemNum
    have hsame : t.items.take (t.items.length - p) = t.items := by
      have := Option.some.inj (hexec₁.symm.trans hexec)
      exact Result.visited.inj (congrArg Prod.fst this)
    have hlen := congrArg List.length hsame
    rw [List.length_take] at hlen
    simp only [Op.Fresh, not_or] at hfresh
    omega
  | _ => exact hfresh trivial

lemma Sound.conforms_iff (h : Sound c capacity index t) (hfuel : capacity < fuel) :
    Conforms fuel c t ops ↔ FreshRun fuel c ops := by
  induction ops generalizing c t with
  | nil => exact ⟨fun _ => trivial, fun _ => h.holds⟩
  | cons op ops ih =>
    constructor
    · rintro ⟨-, c', hexec, hrest⟩
      have hfresh : op.Fresh c := by
        by_contra hn
        exact h.not_fresh hn hfuel hexec
      obtain ⟨c₁, hexec₁, hsound⟩ := h.step hfresh hfuel
      obtain rfl : c₁ = c' := congrArg Prod.snd (Option.some.inj (hexec₁.symm.trans hexec))
      refine ⟨hfresh, fun r c₂ hexec₂ => ?_⟩
      obtain rfl : c₁ = c₂ := congrArg Prod.snd (Option.some.inj (hexec₁.symm.trans hexec₂))
      exact (ih hsound).mp hrest
    · rintro ⟨hfresh, hrest⟩
      obtain ⟨c', hexec, hsound⟩ := h.step hfresh hfuel
      exact ⟨h.holds, c', hexec, (ih hsound).mpr (hrest _ c' hexec)⟩

/-- **The table is a finite map** and iterations are complete in every run, just if each of them
begins with an iterator at position zero or over an empty table. -/
theorem intHash_conforms_iff {maxItems : ℕ} {fn : Int32 → UInt64}
    (hinit : intHashInit maxItems fn = some c.ptbl) (hiters : ∀ i, c.piter i = intHashIterInit)
    (hfuel : maxItems < fuel) :
    Conforms fuel c (HashTable.init maxItems) ops ↔ FreshRun fuel c ops := by
  obtain ⟨index, h⟩ := sound_init hinit hiters
  exact h.conforms_iff hfuel

/-- Two items in one bucket, the older one taken out by an iteration. -/
theorem intHash_conforms_two :
    ∃ c : Config ℕ Unit, intHashInit 2 (fun _ => 0) = some c.ptbl ∧
      Conforms 3 c (HashTable.init 2) [.add 1 10, .add 2 20, .iterate () (· == 1), .query 2] := by
  refine ⟨⟨_, fun _ => intHashIterInit⟩, rfl, ?_⟩
  refine (intHash_conforms_iff rfl (fun _ => rfl) (by decide)).mpr ?_
  refine ⟨trivial, fun r c' hexec => ⟨trivial, fun r' c'' hexec' => ⟨.inl ?_, ?_⟩⟩⟩
  · cases hexec
    cases hexec'
    rfl
  · exact fun _ _ _ => ⟨trivial, fun _ _ _ => trivial⟩

/-- The second of two iterations with one iterator comes to nothing. -/
theorem intHash_conforms_again : ¬ ∀ c : Config ℕ Unit,
    intHashInit 2 (fun _ => 0) = some c.ptbl → (∀ i, c.piter i = intHashIterInit) →
      ∀ ops, Conforms 3 c (HashTable.init 2) ops := by
  intro h
  obtain ⟨-, c₁, h₁, -, c₂, h₂, -, c₃, h₃, -⟩ := h ⟨_, fun _ => intHashIterInit⟩ rfl
    (fun _ => rfl) [.add 1 10, .iterate () fun _ => false, .iterate () fun _ => false]
  cases h₁
  cases h₂
  cases h₃

end SteepSystem.IntHash
