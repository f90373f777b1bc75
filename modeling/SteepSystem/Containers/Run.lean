import Mathlib.Tactic
import SteepSystem.Lib.Growable
import SteepSystem.Containers.Model

/-!
Runs of calls on one container: the elements are those that the calls spell, and the block has
room for one more.
-/

namespace SteepSystem.Containers

open SteepSystem.Lib.Growable

variable {α : Type*} {c : Container} {a a' : Arr α} {xs : List α} {alloc : Bool}

/-- The slots that the rounding rule reckons with. -/
def Kind.rounded (k : Kind) (count : ℕ) : ℕ := (count / k.unit + 1) * k.unit

/-- The elements, in a block that has the slots reckoned with. -/
structure Container.Keeps (c : Container) (a : Arr α) (xs : List α) : Prop where
  holds : a.Holds xs
  room : c.kind.rounded a.count ≤ a.block.length
  most : a.count ≤ c.most

/-- An append finds a count that the code grows the block and counts the element right for. -/
def Container.Room (c : Container) (alloc : Bool) (count : ℕ) : Prop :=
  match c with
  | .tpropvalArray | .proptagArray => count < 65535
  | .folderContent => count < 9 ∨ alloc = false
  | .propertyGroupinfo => count < 4294967279 ∨ alloc = false
  | .tarraySet | .attachmentList => True

lemma Container.lt_rounded (c : Container) (count : ℕ) : count < c.kind.rounded count := by
  cases c <;> simp only [Container.kind, Kind.rounded] <;> omega

lemma Container.rounded_mono (c : Container) {m n : ℕ} (h : m ≤ n) :
    c.kind.rounded m ≤ c.kind.rounded n :=
  Nat.mul_le_mul_right _ (Nat.add_le_add_right (Nat.div_le_div_right h) 1)

lemma Kind.newSize_eq (k : Kind) {count : ℕ} (hsum : count + 1 < 2 ^ 32)
    (hsize : k.rounded count < 2 ^ k.varBits)
    (hvar : count + 1 ≥ k.rounded count → k.rounded count + k.unit < 2 ^ k.varBits) :
    k.newSize count = if count + 1 ≥ k.rounded count then some (k.rounded count + k.unit)
      else none := by
  have h1 : (count + 1) % 2 ^ 32 = count + 1 := Nat.mod_eq_of_lt hsum
  have h2 : (count / k.unit + 1) * k.unit % 2 ^ k.varBits = k.rounded count :=
    Nat.mod_eq_of_lt hsize
  simp only [Kind.newSize, h1, h2]
  split_ifs with hfull
  · rw [Nat.mod_eq_of_lt (hvar hfull)]
  · rfl

/-- Below the most elements, the block still has a slot behind the next element, or it is
reallocated with the size of an element. -/
lemma Container.grow_of_lt (c : Container) {count : ℕ} (hlt : count < c.most) :
    c.kind.refuses count = false ∧ count + 1 < 2 ^ c.kind.countBits ∧
      ((c.kind.newSize count = none ∧ c.kind.rounded (count + 1) = c.kind.rounded count) ∨
        ∃ size, c.kind.newSize count = some size ∧
          size * c.kind.regrown / c.kind.slot = c.kind.rounded (count + 1)) := by
  have hnew : c.kind.newSize count = if count + 1 ≥ c.kind.rounded count then
      some (c.kind.rounded count + c.kind.unit) else none := by
    apply Kind.newSize_eq
    · cases c <;> simp only [Container.most] at hlt <;> omega
    · cases c <;> simp only [Container.most, Container.kind, Kind.rounded] at hlt ⊢ <;> omega
    · cases c <;> simp only [Container.most, Container.kind, Kind.rounded] at hlt ⊢ <;> omega
  refine ⟨?_, ?_, ?_⟩
  · cases c <;> simp_all [Container.kind, Kind.refuses, Container.most]
  · cases c <;> simp only [Container.most, Container.kind] at hlt ⊢ <;> omega
  · rw [hnew]
    split_ifs with hfull
    · refine Or.inr ⟨_, rfl, ?_⟩
      cases c <;> simp only [Container.most, Container.kind, Kind.rounded] at * <;> omega
    · refine Or.inl ⟨rfl, ?_⟩
      cases c <;> simp only [Container.most, Container.kind, Kind.rounded] at * <;> omega

/-- At the most elements an append is refused, or asks for memory that it does not get. -/
lemma Container.grow_most (c : Container) (hroom : c.Room alloc c.most) :
    c.kind.refuses c.most = true ∨ c.kind.refuses c.most = false ∧ alloc = false ∧
      ∃ size, c.kind.newSize c.most = some size := by
  cases c
  case tarraySet => exact Or.inl rfl
  case attachmentList => exact Or.inl rfl
  case tpropvalArray => exact absurd hroom (lt_irrefl _)
  case proptagArray => exact absurd hroom (lt_irrefl _)
  case folderContent =>
    exact Or.inr ⟨rfl, hroom.resolve_left (lt_irrefl _), _, rfl⟩
  case propertyGroupinfo =>
    exact Or.inr ⟨rfl, hroom.resolve_left (lt_irrefl _), 4, by decide +kernel⟩

lemma Container.Keeps.lt_length (h : c.Keeps a xs) : a.count < a.block.length :=
  lt_of_lt_of_le (c.lt_rounded _) h.room

/-- An element written and counted in a block that has the slots for it. -/
lemma Container.put_spec (h : a.Holds xs) (hlt : a.count < c.most)
    (hroom : c.kind.rounded (a.count + 1) ≤ a.block.length) (x : α) :
    ∃ a', c.kind.put a (some x) = some (true, a') ∧ c.Keeps a' (xs ++ [x]) := by
  have hfit : a.count < a.block.length := lt_of_lt_of_le (Nat.lt_of_succ_lt (c.lt_rounded _)) hroom
  have hmod : (a.count + 1) % 2 ^ c.kind.countBits = a.count + 1 :=
    Nat.mod_eq_of_lt (c.grow_of_lt hlt).2.1
  refine ⟨⟨a.block.set a.count (some x), a.count + 1⟩, ?_, h.push hfit x, ?_, hlt⟩
  · simp only [Kind.put, (h.write_count hfit (some x)).1, Option.bind_eq_bind, Option.bind_some,
      hmod]
  · simpa using hroom

/-- A slot written without a value to count. -/
lemma Container.put_none_spec (h : a.Holds xs) (hmost : a.count ≤ c.most)
    (hroom : c.kind.rounded a.count ≤ a.block.length) :
    ∃ a', c.kind.put a none = some (false, a') ∧ c.Keeps a' xs := by
  have hfit : a.count < a.block.length := lt_of_lt_of_le (c.lt_rounded _) hroom
  refine ⟨{ a with block := a.block.set a.count none }, ?_, (h.write_count hfit none).2, ?_, hmost⟩
  · simp only [Kind.put, (h.write_count hfit none).1, Option.bind_eq_bind, Option.bind_some]
  · simpa using hroom

/-- An append adds the element, or it returns false and nothing is lost. -/
lemma Container.append_spec (alloc : Bool) (h : c.Keeps a xs) (hroom : c.Room alloc a.count)
    (x : Option α) :
    ∃ ok a', c.kind.append alloc a x = some (ok, a') ∧
      c.Keeps a' (if ok then xs ++ x.toList else xs) ∧ (ok = true → x.isSome = true) := by
  have hput {a : Arr α} (hold : a.Holds xs) (hlt : a.count < c.most)
      (hle : c.kind.rounded (a.count + 1) ≤ a.block.length) :
      ∃ ok a', c.kind.put a x = some (ok, a') ∧
        c.Keeps a' (if ok then xs ++ x.toList else xs) ∧ (ok = true → x.isSome = true) := by
    cases x with
    | none =>
      obtain ⟨a', heq, hkeeps⟩ := c.put_none_spec hold hlt.le
        ((c.rounded_mono (Nat.le_succ _)).trans hle)
      exact ⟨false, a', heq, hkeeps, nofun⟩
    | some x =>
      obtain ⟨a', heq, hkeeps⟩ := c.put_spec hold hlt hle x
      exact ⟨true, a', heq, hkeeps, fun _ => rfl⟩
  unfold Kind.append
  rcases h.most.lt_or_eq with hlt | hfull
  · obtain ⟨hguard, -, ⟨hnew, hsame⟩ | ⟨size, hnew, hsize⟩⟩ := c.grow_of_lt hlt
    · rw [hguard, hnew]
      exact hput h.holds hlt (hsame.trans_le h.room)
    · rw [hguard, hnew]
      cases alloc
      · exact ⟨false, a, rfl, h, nofun⟩
      · have hle : a.count ≤ c.kind.rounded (a.count + 1) :=
          (Nat.lt_of_succ_lt (c.lt_rounded _)).le
        simp only [Bool.false_eq_true, if_false, if_true, hsize]
        exact hput (h.holds.regrow hle) hlt (by rw [Arr.length_regrow]; exact le_rfl)
  · rw [hfull] at hroom ⊢
    rcases c.grow_most hroom with hguard | ⟨hguard, rfl, size, hnew⟩
    · rw [hguard]
      exact ⟨false, a, rfl, h, nofun⟩
    · rw [hguard, hnew]
      exact ⟨false, a, rfl, h, nofun⟩

lemma Container.keeps_empty (c : Container) : c.Keeps (Arr.empty c.kind.unit : Arr α) [] := by
  refine ⟨Arr.holds_empty, ?_, Nat.zero_le _⟩
  simp [Kind.rounded, Arr.empty]

/-- A slot taken out of the elements. -/
lemma Container.removeSlot_spec {i : ℕ} (h : c.Keeps a xs) (hi : i < xs.length) :
    ∃ a', removeSlot a i = some a' ∧ c.Keeps a' (xs.eraseIdx i) := by
  have hround : c.kind.rounded (a.count - 1) ≤ a.block.length :=
    (c.rounded_mono (Nat.sub_le _ _)).trans h.room
  have hmost : a.count - 1 ≤ c.most := (Nat.sub_le _ _).trans h.most
  have hcount := h.holds.count_eq
  unfold removeSlot
  dsimp only
  split_ifs with hlast
  · obtain ⟨a', heq, hold, hlen⟩ := h.holds.closeGap hi
    have hcount' : a'.count = a.count - 1 := by
      rw [hold.count_eq, List.length_eraseIdx_of_lt hi, hcount]
    exact ⟨a', heq, hold, by rw [hcount', hlen]; exact hround, by rw [hcount']; exact hmost⟩
  · -- the last element only leaves the count
    refine ⟨_, rfl, ⟨?_, ?_⟩, hround, hmost⟩
    · rw [List.length_eraseIdx_of_lt hi, ← hcount]
    · obtain ⟨rest, hrest⟩ := h.holds.block_eq
      obtain ⟨l, x, r, rfl, rfl⟩ := Arr.split_at hi
      rw [List.length_append, List.length_cons] at hcount
      obtain rfl : r = [] := List.length_eq_zero_iff.1 (by omega)
      refine ⟨some x :: rest, ?_⟩
      rw [hrest, List.eraseIdx_append_of_length_le (le_refl _)]
      simp

lemma Container.removeAt_spec (h : c.Keeps a xs) (i : ℕ) :
    ∃ a', removeAt a i = some a' ∧ c.Keeps a' (xs.eraseIdx i) := by
  have hcount := h.holds.count_eq
  unfold removeAt
  split_ifs with hge
  · rw [List.eraseIdx_of_length_le (by omega)]
    exact ⟨a, rfl, h⟩
  · exact c.removeSlot_spec h (by omega)

section Keys

variable (key : α → UInt32)

lemma Container.removeKey_spec (h : c.Keeps a xs) (tag : UInt32) :
    ∃ a', removeKey key a tag = some a' ∧ c.Keeps a' (xs.eraseP (key · = tag)) := by
  simp only [removeKey, h.holds.elems_eq, Option.bind_eq_bind, Option.bind_some]
  rcases hfind : xs.findIdx? (key · = tag) with _ | i
  · rw [List.eraseP_of_forall_not]
    · exact ⟨a, rfl, h⟩
    · simpa [List.findIdx?_eq_none_iff] using hfind
  · have hi : i < xs.length := (List.findIdx?_eq_some_iff_findIdx_eq.1 hfind).1
    have herase : xs.eraseP (key · = tag) = xs.eraseIdx i := by
      rw [List.eraseP_eq_eraseIdx, hfind]
    rw [herase]
    exact c.removeSlot_spec h hi

/-- The element in the place of the one with its tag, or behind the others. -/
def setElem (x : α) (xs : List α) : List α :=
  match xs.findIdx? (key · = key x) with
  | some i => xs.set i x
  | none => xs ++ [x]

lemma tpropvalArrayAppend_spec (alloc : Bool) (copy : Copy)
    (h : Container.tpropvalArray.Keeps a xs) (x : α) (hroom : copy = .made → a.count < 65535) :
    ∃ ok a', tpropvalArrayAppend alloc copy a x = some (ok, a') ∧
      Container.tpropvalArray.Keeps a'
        (if ok ∧ copy = .made then xs ++ [x] else xs) := by
  cases copy with
  | null => exact ⟨true, a, rfl, by simpa using h⟩
  | made =>
    obtain ⟨ok, a', heq, hkeeps, -⟩ :=
      Container.append_spec alloc h (hroom rfl) (some x)
    exact ⟨ok, a', heq, by simpa using hkeeps⟩
  | failed =>
    rcases h.most.lt_or_eq with hlt | hfull
    · obtain ⟨ok, a', heq, hkeeps, hok⟩ := Container.append_spec alloc h hlt none
      cases ok with
      | true => exact absurd (hok rfl) (by simp)
      | false => exact ⟨false, a', heq, by simpa using hkeeps⟩
    · -- at the greatest count there is a slot left, which no count would reach
      obtain ⟨a', heq, hkeeps⟩ := Container.tpropvalArray.put_none_spec h.holds h.most h.room
      have hnew : Container.tpropvalArray.kind.newSize a.count = none := by rw [hfull]; rfl
      refine ⟨false, a', ?_, by simpa using hkeeps⟩
      simp only [tpropvalArrayAppend, Kind.append, hnew]
      exact heq

/-- An append for which no copy was made returns false. -/
lemma tpropvalArrayAppend_failed {ok : Bool} {x : α} (h : Container.tpropvalArray.Keeps a xs)
    {copy : Copy} (heq : tpropvalArrayAppend alloc copy a x = some (ok, a'))
    (hcopy : copy = .failed) : ok = false := by
  subst hcopy
  rcases h.most.lt_or_eq with hlt | hfull
  · obtain ⟨ok', a'', heq', -, hok⟩ := Container.append_spec alloc h hlt none
    obtain ⟨rfl, -⟩ := Prod.mk.inj (Option.some.inj (heq'.symm.trans heq))
    cases ok'
    · rfl
    · exact absurd (hok rfl) (by simp)
  · obtain ⟨a'', hput, -⟩ := Container.tpropvalArray.put_none_spec h.holds h.most h.room
    have hnew : Container.tpropvalArray.kind.newSize a.count = none := by rw [hfull]; rfl
    simp only [tpropvalArrayAppend, Kind.append, hnew] at heq
    obtain ⟨rfl, -⟩ := Prod.mk.inj (Option.some.inj (hput.symm.trans heq))
    rfl

lemma setPropval_spec {copy : Copy} (h : Container.tpropvalArray.Keeps a xs) (x : α)
    (hroom : copy = .made → (∀ y ∈ xs, key y ≠ key x) → a.count < 65535) :
    ∃ ok a', setPropval key alloc copy a x = some (ok, a') ∧
      Container.tpropvalArray.Keeps a'
        (if ok ∧ copy = .made then setElem key x xs else xs) := by
  simp only [setPropval, setElem, h.holds.elems_eq, Option.bind_eq_bind, Option.bind_some]
  rcases hfind : xs.findIdx? (key · = key x) with _ | i
  · have hnone : ∀ y ∈ xs, key y ≠ key x := by simpa [List.findIdx?_eq_none_iff] using hfind
    exact tpropvalArrayAppend_spec alloc copy h x fun hmade => hroom hmade hnone
  · have hi : i < xs.length := (List.findIdx?_eq_some_iff_findIdx_eq.1 hfind).1
    cases copy with
    | made =>
      obtain ⟨hwrite, hold⟩ := h.holds.set hi x
      refine ⟨true, _, by simp only [hwrite]; rfl, ?_⟩
      rw [if_pos ⟨rfl, rfl⟩]
      exact ⟨hold, by simpa using h.room, h.most⟩
    | failed => exact ⟨false, a, rfl, by simpa using h⟩
    | null => exact ⟨false, a, rfl, by simpa using h⟩

lemma proptagArrayAppend_spec (h : Container.proptagArray.Keeps a xs) (x : α)
    (hroom : (∀ y ∈ xs, key y ≠ key x) → a.count < 65535) :
    ∃ ok a', proptagArrayAppend key alloc a x = some (ok, a') ∧
      Container.proptagArray.Keeps a'
        (if ok ∧ ∀ y ∈ xs, key y ≠ key x then xs ++ [x] else xs) := by
  simp only [proptagArrayAppend, h.holds.elems_eq, Option.bind_eq_bind, Option.bind_some]
  by_cases hnew : ∀ y ∈ xs, key y ≠ key x
  · rw [if_neg (by simpa using hnew)]
    obtain ⟨ok, a', heq, hkeeps, -⟩ :=
      Container.append_spec alloc h (hroom hnew) (some x)
    refine ⟨ok, a', heq, ?_⟩
    rw [if_congr (and_iff_left hnew) rfl rfl]
    exact hkeeps
  · rw [if_pos (by simpa using hnew)]
    exact ⟨true, a, rfl, by simpa [hnew] using h⟩

end Keys

/-- Elements appended one after another to what is there. -/
lemma dupLoop_spec {f : ℕ → Arr α → α → Option (Bool × Arr α)}
    (hstep : ∀ i a done x, c.Keeps a done → done.length < c.most →
      ∃ ok a', f i a x = some (ok, a') ∧ (ok = true → c.Keeps a' (done ++ [x])))
    {done : List α} (h : c.Keeps a done) (hle : done.length + xs.length ≤ c.most) (i : ℕ) :
    ∃ r, dupLoop f i a xs = some r ∧ ∀ copy ∈ r, c.Keeps copy (done ++ xs) := by
  induction xs generalizing i a done with
  | nil => exact ⟨some a, rfl, by simpa using h⟩
  | cons x xs ih =>
    rw [List.length_cons] at hle
    obtain ⟨ok, a', heq, hkeeps⟩ := hstep i a done x h (by omega)
    simp only [dupLoop, heq, Option.bind_eq_bind, Option.bind_some]
    cases ok with
    | false => exact ⟨none, rfl, by simp⟩
    | true =>
      obtain ⟨r, hr, hcopy⟩ := ih (hkeeps rfl) (by simp; omega) (i + 1)
      exact ⟨r, hr, by simpa using hcopy⟩

lemma Container.takeCopy_spec (h : c.Keeps a xs) {r : Option (Arr α)}
    (hcopy : ∀ copy ∈ r, c.Keeps copy xs) :
    ∃ ok a', takeCopy a (some r) = some (ok, a') ∧ c.Keeps a' xs := by
  cases r with
  | none => exact ⟨false, a, rfl, h⟩
  | some copy => exact ⟨true, copy, rfl, hcopy copy rfl⟩

lemma Container.Keeps.length_le_most (h : c.Keeps a xs) :
    ([] : List α).length + xs.length ≤ c.most := by
  rw [List.length_nil, zero_add, ← h.holds.count_eq]
  exact h.most

/-- The sets of lists copy an element and then append it. -/
lemma listDup_spec (init : Bool) (allocs copied : ℕ → Bool) (h : c.Keeps a xs)
    (hroom : ∀ alloc count, c.Room alloc count) :
    ∃ r, listDup c.kind init allocs copied a = some r ∧ ∀ copy ∈ r, c.Keeps copy xs := by
  simp only [listDup, h.holds.elems_eq, Option.bind_eq_bind, Option.bind_some]
  split_ifs with hinit
  · refine dupLoop_spec ?_ c.keeps_empty h.length_le_most 0
    intro i a done x hdone _
    split_ifs with hcopied
    · obtain ⟨ok, a', heq, hkeeps, -⟩ := c.append_spec (allocs i) hdone (hroom _ _) (some x)
      exact ⟨ok, a', heq, fun hok => by simpa [hok] using hkeeps⟩
    · exact ⟨false, a, rfl, nofun⟩
  · exact ⟨none, rfl, by simp⟩

lemma tpropvalArrayDup_spec (init : Bool) (allocs copied : ℕ → Bool)
    (h : Container.tpropvalArray.Keeps a xs) :
    ∃ r, tpropvalArrayDup init allocs copied a = some r ∧
      ∀ copy ∈ r, Container.tpropvalArray.Keeps copy xs := by
  simp only [tpropvalArrayDup, h.holds.elems_eq, Option.bind_eq_bind, Option.bind_some]
  split_ifs with hinit
  · refine dupLoop_spec ?_ Container.tpropvalArray.keeps_empty h.length_le_most 0
    intro i a done x hdone hlt
    rw [← hdone.holds.count_eq] at hlt
    obtain ⟨ok, a', heq, hkeeps⟩ := tpropvalArrayAppend_spec (allocs i)
      (if copied i then .made else .failed) hdone x fun _ => hlt
    refine ⟨ok, a', heq, fun hok => ?_⟩
    subst hok
    by_cases hcopied : copied i = true
    · simpa [hcopied] using hkeeps
    · -- without a copy the append returns false
      have := tpropvalArrayAppend_failed hdone heq (by simp [hcopied])
      exact absurd this (by simp)
  · exact ⟨none, rfl, by simp⟩

lemma proptagArrayDup_spec (init : Bool) (h : Container.proptagArray.Keeps a xs) :
    ∃ r, proptagArrayDup init a = some r ∧ ∀ copy ∈ r, Container.proptagArray.Keeps copy xs := by
  simp only [proptagArrayDup, h.holds.elems_eq, Option.bind_eq_bind, Option.bind_some]
  split_ifs with hinit
  · have hmost : a.count ≤ 65535 := h.most
    have hround : (a.count / Container.proptagArray.kind.unit + 1) *
        Container.proptagArray.kind.unit % 2 ^ Container.proptagArray.kind.varBits =
        Container.proptagArray.kind.rounded a.count := by
      simp only [Container.kind, Kind.rounded]
      omega
    refine ⟨_, rfl, fun copy hcopy => ?_⟩
    obtain rfl := Option.mem_some.1 hcopy
    have hold : (⟨xs.map some, a.count⟩ : Arr α).Holds xs :=
      ⟨h.holds.count_eq, [], (List.append_nil _).symm⟩
    rw [hround]
    exact ⟨hold.regrow (Container.proptagArray.lt_rounded _).le,
      by rw [Arr.length_regrow]; exact le_rfl, h.most⟩
  · exact ⟨none, rfl, by simp⟩

lemma Container.dup_spec (key : α → UInt32) {init : Bool} {allocs copied : ℕ → Bool}
    (h : c.Keeps a xs) (hoffer : c.Offers (Op.dup init allocs copied : Op α)) :
    ∃ ok a', step key c a (.dup init allocs copied) = some (ok, a') ∧ c.Keeps a' xs := by
  cases c
  case tpropvalArray =>
    obtain ⟨r, hr, hcopy⟩ := tpropvalArrayDup_spec init allocs copied h
    simp only [step, hr]
    exact Container.takeCopy_spec h hcopy
  case proptagArray =>
    obtain ⟨r, hr, hcopy⟩ := proptagArrayDup_spec init h
    simp only [step, hr]
    exact Container.takeCopy_spec h hcopy
  case tarraySet =>
    obtain ⟨r, hr, hcopy⟩ := listDup_spec init allocs copied h fun _ _ => trivial
    simp only [step, hr]
    exact Container.takeCopy_spec h hcopy
  case attachmentList =>
    obtain ⟨r, hr, hcopy⟩ := listDup_spec init allocs copied h fun _ _ => trivial
    simp only [step, hr]
    exact Container.takeCopy_spec h hcopy
  case folderContent => exact hoffer.elim
  case propertyGroupinfo => exact hoffer.elim

/-! A run, with the calls made and what each returned, the last one first. -/

section Runs

variable (key : α → UInt32)

/-- What a call that returned makes of the elements. -/
def spellStep (op : Op α) (ok : Bool) (xs : List α) : List α :=
  match op with
  | .append _ x => if ok then xs ++ [x] else xs
  | .set _ copy x => if ok ∧ copy = .made then setElem key x xs else xs
  | .appendTag _ x => if ok ∧ ∀ y ∈ xs, key y ≠ key x then xs ++ [x] else xs
  | .removeKey tag => xs.eraseP (key · = tag)
  | .removeAt i => xs.eraseIdx i
  | .clear => []
  | .dup .. => xs

/-- The elements that the calls leave. -/
def spelled (calls : List (Op α × Bool)) : List α :=
  calls.foldr (fun call xs => spellStep key call.1 call.2 xs) []

/-- The last value set for a tag and not removed since. -/
def lastSet : List (Op α × Bool) → UInt32 → Option α
  | [], _ => none
  | (.set _ .made x, true) :: calls, tag => if key x = tag then some x else lastSet calls tag
  | (.removeKey removed, _) :: calls, tag => if removed = tag then none else lastSet calls tag
  | _ :: calls, tag => lastSet calls tag

/-- A call that adds an element finds room for it. -/
def Container.Meets (c : Container) (op : Op α) (a : Arr α) (xs : List α) : Prop :=
  match op with
  | .append alloc _ => c.Room alloc a.count
  | .set alloc copy x => copy = .made → (∀ y ∈ xs, key y ≠ key x) → c.Room alloc a.count
  | .appendTag alloc x => (∀ y ∈ xs, key y ≠ key x) → c.Room alloc a.count
  | _ => True

inductive Run (c : Container) : List (Op α × Bool) → Arr α → Prop
  | init : Run c [] (Arr.empty c.kind.unit)
  | step {calls a op ok a'} : Run c calls a → c.Offers op → c.Meets key op a (spelled key calls) →
      step key c a op = some (ok, a') → Run c ((op, ok) :: calls) a'

/-- A call that meets the condition stays inside the block and does what it spells. -/
lemma Container.step_spec {op : Op α} (h : c.Keeps a xs) (hoffer : c.Offers op)
    (hmeets : c.Meets key op a xs) :
    ∃ ok a', step key c a op = some (ok, a') ∧ c.Keeps a' (spellStep key op ok xs) := by
  cases op with
  | append alloc x =>
    obtain ⟨ok, a', heq, hkeeps, -⟩ := c.append_spec alloc h hmeets (some x)
    exact ⟨ok, a', heq, hkeeps⟩
  | set alloc copy x =>
    cases c <;> first | exact hoffer.elim | exact setPropval_spec key h x hmeets
  | appendTag alloc x =>
    cases c <;> first | exact hoffer.elim | exact proptagArrayAppend_spec key h x hmeets
  | removeKey tag =>
    obtain ⟨a', heq, hkeeps⟩ := c.removeKey_spec key h tag
    exact ⟨true, a', by simp only [step, heq, Option.map_some], hkeeps⟩
  | removeAt i =>
    obtain ⟨a', heq, hkeeps⟩ := c.removeAt_spec h i
    exact ⟨true, a', by simp only [step, heq, Option.map_some], hkeeps⟩
  | clear =>
    refine ⟨true, _, rfl, ⟨rfl, a.block, rfl⟩, ?_, Nat.zero_le _⟩
    exact (c.rounded_mono (Nat.zero_le _)).trans h.room
  | dup init allocs copied => exact c.dup_spec key h hoffer

lemma Run.keeps {calls : List (Op α × Bool)} (h : Run key c calls a) :
    c.Keeps a (spelled key calls) := by
  induction h with
  | init => exact c.keeps_empty
  | step _ hoffer hmeets hstep ih =>
    obtain ⟨ok, a', heq, hkeeps⟩ := c.step_spec key ih hoffer hmeets
    obtain ⟨rfl, rfl⟩ := Prod.mk.inj (Option.some.inj (hstep.symm.trans heq))
    exact hkeeps

/-! Reads by tag. -/

lemma setElem_cons (x y : α) (xs : List α) : setElem key x (y :: xs) =
    if key y = key x then x :: xs else y :: setElem key x xs := by
  unfold setElem
  rw [List.findIdx?_cons]
  by_cases h : key y = key x
  · simp [h]
  · cases xs.findIdx? (key · = key x) <;> simp [h]

lemma map_setElem (x : α) (xs : List α) : (setElem key x xs).map key =
    if key x ∈ xs.map key then xs.map key else xs.map key ++ [key x] := by
  induction xs with
  | nil => simp [setElem]
  | cons y xs ih =>
    rw [setElem_cons]
    by_cases h : key y = key x
    · simp [h]
    · rw [if_neg h, List.map_cons, ih]
      by_cases hmem : key x ∈ xs.map key
      · rw [if_pos hmem, List.map_cons, if_pos (List.mem_cons_of_mem _ hmem)]
      · have hne : ¬ key x = key y := fun heq => h heq.symm
        rw [if_neg hmem, List.map_cons, if_neg (by simpa [hne] using hmem), List.cons_append]

lemma find?_setElem (x : α) (xs : List α) (tag : UInt32) :
    (setElem key x xs).find? (key · = tag) =
      if key x = tag then some x else xs.find? (key · = tag) := by
  induction xs with
  | nil =>
    by_cases h : key x = tag <;> simp [setElem, h]
  | cons y xs ih =>
    rw [setElem_cons]
    by_cases h : key y = key x
    · by_cases htag : key x = tag
      · simp [h, htag]
      · simp [h, htag]
    · rw [if_neg h, List.find?_cons, ih, List.find?_cons]
      by_cases htag : key y = tag
      · have hne : key x ≠ tag := fun heq => h (htag.trans heq.symm)
        simp [htag, hne]
      · simp [htag]

lemma find?_eraseP {xs : List α} (hnodup : (xs.map key).Nodup) (removed tag : UInt32) :
    (xs.eraseP (key · = removed)).find? (key · = tag) =
      if removed = tag then none else xs.find? (key · = tag) := by
  induction xs with
  | nil => simp
  | cons y xs ih =>
    rw [List.map_cons, List.nodup_cons] at hnodup
    rw [List.eraseP_cons]
    by_cases h : key y = removed
    · by_cases htag : removed = tag
      · -- no other element has the tag
        have hnone : ∀ z ∈ xs, key z ≠ tag := fun z hz heq =>
          hnodup.1 (List.mem_map.2 ⟨z, hz, by rw [heq, h, htag]⟩)
        simpa [h, htag] using hnone
      · simp [h, htag]
    · rw [decide_eq_false h, cond_false, List.find?_cons, ih hnodup.2, List.find?_cons]
      by_cases htag : key y = tag
      · have hne : removed ≠ tag := fun heq => h (htag.trans heq.symm)
        simp [htag, hne]
      · simp [htag]

/-- Under set and remove a tag has one value at most, and it is the last one set. -/
lemma Run.reads {calls : List (Op α × Bool)} (h : Run key .tpropvalArray calls a) :
    ((spelled key calls).map key).Nodup ∧
      ∀ tag, (spelled key calls).find? (key · = tag) = lastSet key calls tag := by
  induction h with
  | init => exact ⟨List.nodup_nil, fun _ => rfl⟩
  | @step calls a op ok a' hrun hoffer hmeets hstep ih =>
    obtain ⟨hnodup, hfind⟩ := ih
    cases op with
    | set alloc copy x =>
      rcases ok with _ | _
      · cases copy <;> exact ⟨hnodup, hfind⟩
      · cases copy with
        | made =>
          have hspell : spelled key ((.set alloc .made x, true) :: calls) =
              setElem key x (spelled key calls) := by simp [spelled, spellStep]
          rw [hspell, map_setElem]
          refine ⟨?_, fun tag => ?_⟩
          · split_ifs with hmem
            · exact hnodup
            · simpa [List.nodup_append, hnodup] using hmem
          · rw [find?_setElem, hfind, lastSet]
        | failed => exact ⟨hnodup, hfind⟩
        | null => exact ⟨hnodup, hfind⟩
    | removeKey tag =>
      refine ⟨hnodup.sublist ((List.eraseP_sublist).map key), fun tag' => ?_⟩
      have := find?_eraseP key hnodup tag tag'
      rw [hfind] at this
      exact this
    | dup init allocs copied => exact ⟨hnodup, hfind⟩
    | append alloc x => exact hoffer.elim
    | appendTag alloc x => exact hoffer.elim
    | removeAt i => exact hoffer.elim
    | clear => exact hoffer.elim

/-- What the claimant of a container relies on in a state: the block has more slots than there
are elements, the elements are those that the calls left, every call that meets the condition
stays inside the block, and in a `TPROPVAL_ARRAY` a tag has one value, the last one set. -/
structure Sound (c : Container) (calls : List (Op α × Bool)) (a : Arr α) : Prop where
  room : a.count < a.block.length
  elems : a.elems = some (spelled key calls)
  inside : ∀ op, c.Offers op → c.Meets key op a (spelled key calls) → (step key c a op).isSome
  one_value : c = .tpropvalArray → ((spelled key calls).map key).Nodup
  reads : c = .tpropvalArray → ∀ tag, getPropval key a tag = some (lastSet key calls tag)

/-- Every state of a run whose appends find room is sound. -/
theorem run_sound (c : Container) (calls : List (Op α × Bool)) (a : Arr α)
    (h : Run key c calls a) : Sound key c calls a := by
  have hkeeps := h.keeps
  have helems := hkeeps.holds.elems_eq
  constructor
  case room => exact hkeeps.lt_length
  case elems => exact helems
  case inside =>
    intro op hoffer hmeets
    obtain ⟨ok, a', heq, -⟩ := c.step_spec key hkeeps hoffer hmeets
    rw [heq]
    rfl
  case one_value =>
    rintro rfl
    exact h.reads.1
  case reads =>
    rintro rfl tag
    simp only [getPropval, helems, Option.bind_eq_bind, Option.bind_some]
    exact congrArg some (h.reads.2 tag)

end Runs

/-- A property set in a new array. -/
theorem run_sound_set :
    Sound (fun x : UInt32 × ℕ => x.1) .tpropvalArray [(.set true .made (0x37001F, 5), true)]
      ⟨(some (0x37001F, 5) :: List.replicate 99 none), 1⟩ :=
  run_sound _ _ _ _ (Run.step Run.init trivial (fun _ _ => (by decide : 0 < 65535)) rfl)

/-- The block of nine subfolders is reallocated for the tenth with the size of a pointer for each,
and the tenth is written outside it. -/
theorem subfolders_ten :
    step (fun x : UInt32 => x) .folderContent
      ⟨(List.range 9).map (fun i => some i.toUInt32) ++ [none], 9⟩ (.append true 9) = none := by
  decide +kernel

/-- With 65535 values in a `TPROPVAL_ARRAY` one more leaves its count at zero. -/
theorem count_wraps (a : Arr α) (x : α) (hcount : a.count = 65535)
    (hroom : 65536 ≤ a.block.length) :
    ∃ a', tpropvalArrayAppend true .made a x = some (true, a') ∧ a'.count = 0 := by
  have hnew : Container.tpropvalArray.kind.newSize a.count = none := by rw [hcount]; rfl
  have hlt : a.count < a.block.length := by rw [hcount]; exact hroom
  have hguard : Container.tpropvalArray.kind.refuses a.count = false := rfl
  refine ⟨⟨a.block.set a.count (some x), 0⟩, ?_, rfl⟩
  simp only [tpropvalArrayAppend, Kind.append, hguard, hnew, Kind.put, Arr.write, if_pos hlt]
  simp [Container.kind, hcount]

end SteepSystem.Containers
