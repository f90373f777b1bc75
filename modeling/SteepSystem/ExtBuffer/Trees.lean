import SteepSystem.ExtBuffer.RoundTrip

/-!
What is pushed successfully and what is read back from it. A push that succeeds is undone by the
pull function of the same kind exactly if all of the value has been written and fits; the other
pushes either hide a failure, in the tag of a rule, or write something that is not read back.
-/

namespace SteepSystem.ExtBuffer

open SteepSystem.Lib.Bytes SteepSystem.Lib.Programs SteepSystem.Lib.Programs.Program

/-- At every depth from some on, `a` is pulled from exactly these bytes. -/
def Restores {α : Type} (p : ℕ → Pull α) (bs : Bytes) (a : α) : Prop :=
  ∃ enough, ∀ depth ≥ enough, ∀ b : Input, Granted b → b.data = bs →
    b.run (p depth) 0 = .ok (a, bs.length)

/-- No failure is hidden, and what has been written is read back. -/
def Undone {α : Type} (p : ℕ → Pull α) (r : Pushed) (a : α) : Prop :=
  r.hidden = false ∧ Restores p r.bytes a

/-- All of it can be written, has room in the buffer and is read back. -/
def Sound (cap off : ℕ) (em : Emit) (good : Prop) : Prop :=
  em.Whole ∧ off + em.size ≤ cap ∧ good ∧ em.Near em.size

lemma restores_iff {α : Type} {p : ℕ → Pull α} {em : Emit} {a : α} {good : Prop} {n : ℕ}
    (h : ∀ depth ≥ n, Parses (p depth) em a good) {bs : Bytes} (hbs : em.encoding = some bs)
    (hlt : bs.length < 2 ^ 32) : Restores p bs a ↔ good ∧ em.Near em.size := by
  have hrun : ∀ depth ≥ n, ∀ b : Input, Granted b → b.data = bs →
      (b.run (p depth) 0 = .ok (a, bs.length) ↔ good ∧ em.Near em.size) := by
    intro depth hdepth b hb hdata
    have hat : At b 0 bs := ⟨[], [], by simp [hdata], rfl⟩
    rw [h depth hdepth bs hbs b 0 hb hat, Input.size, hdata, length_encoding hbs]
    simp
  constructor
  · rintro ⟨enough, hp⟩
    -- a depth that is enough for both
    have hb : Granted ⟨bs, hlt, fun _ => true⟩ := fun _ => rfl
    exact (hrun (n + enough) (by omega) _ hb rfl).mp (hp _ (by omega) _ hb rfl)
  · intro hgood
    exact ⟨n, fun depth hdepth b hb hdata => (hrun depth hdepth b hb hdata).mpr hgood⟩

lemma undone_iff {α : Type} {p : ℕ → Pull α} {em : Emit} {a : α} {good : Prop} {n : ℕ}
    (h : ∀ depth ≥ n, Parses (p depth) em a good) {cap off : ℕ} (hcap : cap < 2 ^ 32)
    (hoff : off ≤ cap) (hs : (em.run cap off).status = .success) :
    Undone p (em.run cap off) a ↔ Sound cap off em good := by
  unfold Undone Sound
  rw [← and_assoc, ← hidden_eq_false_iff hcap hoff hs, and_congr_right_iff]
  intro hh
  have hle := length_run_le em hoff
  exact restores_iff h (encoding_of_run hs hh) (by omega)

/-! Values, restrictions and rule actions. -/

/-- What the five pairs of functions push and pull. -/
inductive Tree
  | propval (type : UInt16) (v : PropVal)
  | typed (type : UInt16) (v : PropVal)
  | tagged (r : TaggedPropval)
  | restriction (r : Restriction)
  | ruleActions (pblock : List ActionBlock)

variable (x : Setup)

namespace Tree

def push : Tree → Emit
  | propval type v => pushPropval x type v
  | typed t v => .seq (pushUint16 t) (pushPropval x t v)
  | tagged r => pushTaggedPropval x r
  | restriction r => pushRestriction x r
  | ruleActions pblock => pushRuleActions x pblock

/-- The pull function of the same kind undoes the push. -/
def UndoneBy (r : Pushed) : Tree → Prop
  | propval type v => Undone (fun depth => pullPropval x depth type) r v
  | typed t v => Undone (pullTypedPropval x) r (.typed t v)
  | tagged a => Undone (pullTaggedPropval x) r a
  | restriction a => Undone (pullRestriction x) r a
  | ruleActions pblock => Undone (pullRuleActions x) r pblock

def Fits : Tree → Prop
  | propval type v => PropvalFits x type v
  | typed t v => PropvalFits x t v
  | tagged r => TaggedFits x r
  | restriction r => RestrictionFits x r
  | ruleActions pblock => ActionBlocksFit x pblock

end Tree

variable {x}

lemma ReadBack.ruleActions {depth n : ℕ} (h : ReadBack x depth n) (pblock : List ActionBlock)
    (hn : sizeOf pblock ≤ n) :
    Parses (pullRuleActionsWith x (pullTaggedPropvalWith (pullPropval x depth)))
      (pushRuleActions x pblock) pblock (ActionBlocksFit x pblock) := by
  have hblocks : ∀ r ∈ pblock, Parses
      (pullActionBlock x (pullTaggedPropvalWith (pullPropval x depth)))
      (pushActionBlock x r) r (ActionBlockFits x r) := by
    intro r hr
    have := List.sizeOf_lt_of_mem hr
    exact h.actionBlock r (by omega)
  have hp := parses_some16 hblocks
  rwa [← pushActionBlocks_eq, ← actionBlocksFit_iff] at hp

/-- **Trees that are read back.** Where a push succeeds, it is undone by the pull function of the
same kind exactly if all of the value has been written and fits. -/
theorem undoneBy_iff (hconv : x.iconv.Lawful) {cap off : ℕ} (hcap : cap < 2 ^ 32)
    (hoff : off ≤ cap) (r : Tree) (hs : ((r.push x).run cap off).status = .success) :
    r.UndoneBy x ((r.push x).run cap off) ↔ Sound cap off (r.push x) (r.Fits x) := by
  have hread := @readBack x hconv
  cases r with
  | propval type v =>
    apply undone_iff (n := sizeOf v + 1) ?_ hcap hoff hs
    intro depth hdepth
    exact (hread depth).propval v type (by omega)
  | typed t v =>
    apply undone_iff (n := sizeOf v + 1) ?_ hcap hoff hs
    intro depth hdepth
    exact (parses_uint16 t).then (((hread depth).propval v t (by omega)).map (by simp))
  | tagged a =>
    apply undone_iff (n := sizeOf a) ?_ hcap hoff hs
    intro depth hdepth
    exact (hread depth).tagged a hdepth
  | restriction a =>
    apply undone_iff (n := sizeOf a + 1) ?_ hcap hoff hs
    intro depth hdepth
    exact (hread depth).restriction a (by omega)
  | ruleActions pblock =>
    apply undone_iff (n := sizeOf pblock) ?_ hcap hoff hs
    intro depth hdepth
    exact (hread depth).ruleActions pblock hdepth

/-- It tags a message with a number of 32 bits. -/
def tagBlock : ActionBlock := .mk 17 0x09 0 0 (.tag (.mk 0x10800003 (.long 7)))

def tagRule : Tree := .ruleActions [tagBlock]

theorem undoneBy_iff_tagRule :
    tagRule.UndoneBy unicodeSetup ((tagRule.push unicodeSetup).run 32 0) := by
  refine (undoneBy_iff (x := unicodeSetup) asciiIconv_lawful (by decide) (by decide) tagRule
    (by decide)).mpr ⟨?_, by decide, ?_, ?_⟩
  · exact ⟨trivial, ⟨trivial, trivial, trivial, trivial, trivial⟩, trivial⟩
  · exact ⟨⟨rfl, trivial⟩, trivial⟩
  · exact ⟨trivial, ⟨trivial, trivial, trivial, trivial, trivial⟩, trivial⟩

/-- In a buffer of 17 bytes there is no room for the number, and the push of the rule succeeds. -/
theorem not_undoneBy : ¬ ∀ (x : Setup) (cap off : ℕ) (r : Tree), x.iconv.Lawful → x.tbllmt = false →
    cap < 2 ^ 32 → off ≤ cap → ((r.push x).run cap off).status = .success →
    r.UndoneBy x ((r.push x).run cap off) := by
  intro h
  have htag := h unicodeSetup 17 0 tagRule asciiIconv_lawful rfl (by decide) (by decide)
    (by decide)
  have hhidden : ((tagRule.push unicodeSetup).run 17 0).hidden = true := by decide
  have := htag.1
  rw [hhidden] at this
  cases this

end SteepSystem.ExtBuffer
