import SteepSystem.StreamObjects.Refinement

/-!
Runs of calls on any number of streams. In a run whose calls fit, the streams are at every
point the files that the calls so far make of the first ones, and every call returns what it
returns for the files.
-/

namespace SteepSystem.StreamObjects

open SteepSystem.Lib SteepSystem.Lib.Runs

def files (w : ℕ → StreamObject) : ℕ → File := fun i => (w i).toFile

def parents (w : ℕ → StreamObject) : ℕ → ParentType := fun i => (w i).objectType

/-- A call that keeps clear of the wrapped sums and of the other branches named below. -/
def Fits (w : ℕ → StreamObject) : Op → Prop
  | .read i n => n < 2 ^ 16 ∧
    ((w i).content.length ≤ (w i).seekPtr ∨ (w i).seekPtr + n < 2 ^ 32)
  | .write i data mem appended => WriteFits (w i) data mem appended
  | .seek i opt offset mem => SeekFits (w i) opt offset mem
  | .setLength _ length _ => length < 2 ^ 32
  | .copy dst src length _ => CopyFits w dst src length

/-- A stream as it is opened. -/
structure StreamObject.Fresh (s : StreamObject) : Prop where
  seek : s.seekPtr = 0
  touched : s.touched = false
  content : s.content.length < 2 ^ 32
  limit : s.maxLength < 2 ^ 32

lemma files_update (w : ℕ → StreamObject) (i : ℕ) (s : StreamObject) :
    files (Function.update w i s) = Function.update (files w) i s.toFile := by
  funext j
  by_cases hj : j = i
  · subst hj
    simp [files]
  · simp [files, hj]

lemma parents_update {w : ℕ → StreamObject} {i : ℕ} {s : StreamObject}
    (h : s.objectType = (w i).objectType) (j : ℕ) :
    (Function.update w i s j).objectType = (w j).objectType := by
  by_cases hj : j = i
  · subst hj
    simpa using h
  · simp [hj]

/-- **One call.** It has a defined effect, and it is what the call means for the files. -/
theorem exec_spec {w : ℕ → StreamObject} (h : ∀ i, (w i).Sound) {op : Op} (hfits : Fits w op) :
    ∃ r w', exec w op = some (r, w') ∧ meant (parents w) (files w) op = (r, files w') ∧
      ∀ i, (w' i).objectType = (w i).objectType := by
  cases op with
  | read i n =>
    obtain ⟨s', hres, hfile, htype⟩ := read_spec (h i) hfits.1 hfits.2
    refine ⟨_, _, by rw [exec, hres]; rfl, ?_, parents_update htype⟩
    rw [files_update, hfile]
    rfl
  | write i data mem appended =>
    obtain ⟨s', hres, hfile, htype⟩ := write_spec (h i) hfits
    refine ⟨_, _, by rw [exec, hres]; rfl, ?_, parents_update htype⟩
    rw [files_update, hfile]
    rfl
  | seek i opt offset mem =>
    obtain ⟨hb, hfile, htype⟩ := seek_spec (h i) hfits
    refine ⟨_, _, rfl, ?_, parents_update htype⟩
    rw [files_update, hfile, hb]
    rfl
  | setLength i length mem =>
    obtain ⟨hb, hfile, htype⟩ := setLength_spec (h i) length mem
    refine ⟨_, _, rfl, ?_, parents_update htype⟩
    rw [files_update, hfile, hb]
    rfl
  | copy dst src length mem => exact copy_spec h (parents w) hfits

lemma kept_update {f : ℕ → File} (h : ∀ i, (f i).Sound) {j : ℕ} {g : File}
    (hg : File.Kept (f j) g) (i : ℕ) : File.Kept (f i) (Function.update f j g i) := by
  by_cases hi : i = j
  · subst hi
    simpa using hg
  · simpa [hi] using File.Kept.refl (h i)

/-- What a call makes of the files keeps every position inside its file. -/
theorem meant_kept (parent : ℕ → ParentType) {f : ℕ → File} (h : ∀ i, (f i).Sound) (op : Op) (i : ℕ) :
    File.Kept (f i) ((meant parent f op).2 i) := by
  cases op with
  | read j n => exact kept_update h (File.kept_read (h j) n) i
  | write j data mem appended =>
    refine kept_update h ?_ i
    unfold writeFile
    split_ifs
    · exact .refl (h j)
    · exact File.kept_write (h j) data mem
  | seek j opt offset mem =>
    refine kept_update h ?_ i
    unfold seekFile
    simp only
    split_ifs
    · exact .refl (h j)
    all_goals exact File.kept_seek (h j) _ mem
  | setLength j length mem => exact kept_update h (File.kept_setLength (h j) length mem) i
  | copy dst src length mem =>
    simp only [meant]
    split_ifs with hend hwrite
    · exact .refl (h i)
    · -- The target first, then the source, which may be the target.
      have hdst := fun j => kept_update h (File.kept_write (h dst) ((f src).read
        (min (min length ((f src).bytes.length - (f src).pos))
          ((f dst).maxLength - (f dst).pos))).1 mem) j
      exact (hdst i).trans
        (kept_update (fun j => (hdst j).sound) (File.kept_read (hdst src).sound _) i)
    · exact .refl (h i)

/-- What holds of the streams after a run from `w₀`. -/
structure Along (w₀ w : ℕ → StreamObject) : Prop where
  kept : ∀ i, File.Kept (files w₀ i) (files w i)
  parents : parents w = parents w₀

lemma Along.sound {w₀ w : ℕ → StreamObject} (h₀ : ∀ i, (w₀ i).Fresh) (h : Along w₀ w) (i : ℕ) :
    (w i).Sound := by
  have hlen := (h.kept i).length
  have hlim : (w i).maxLength = (w₀ i).maxLength := (h.kept i).limit
  have hc := (h₀ i).content
  have hm := (h₀ i).limit
  refine ⟨(h.kept i).sound, ?_, hlim ▸ hm⟩
  exact hlen.trans_lt (max_lt hc hm)

lemma Along.step {w₀ w w' : ℕ → StreamObject} (h : Along w₀ w) {op : Op} {r : Result}
    (hmeant : meant (StreamObjects.parents w) (files w) op = (r, files w'))
    (htypes : ∀ i, (w' i).objectType = (w i).objectType) : Along w₀ w' where
  kept i := by
    have hstep := meant_kept (StreamObjects.parents w) (fun j => (h.kept j).sound) op i
    rw [hmeant] at hstep
    exact (h.kept i).trans hstep
  parents := (funext htypes).trans h.parents

end SteepSystem.StreamObjects
