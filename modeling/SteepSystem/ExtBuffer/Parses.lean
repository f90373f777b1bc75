import SteepSystem.ExtBuffer.Pull
import SteepSystem.ExtBuffer.Emission

/-!
When a pull function reads back what a push function has written: for a value that is good it
does, and reads nothing else, and for one that is not it does not. One lemma for each primitive,
and one for each way of putting functions together.
-/

namespace SteepSystem.ExtBuffer

open SteepSystem.Lib.Bytes SteepSystem.Lib.Programs SteepSystem.Lib.Programs.Program

/-- `bs` stands at an offset of the data. -/
def At (b : Input) (off : ℕ) (bs : Bytes) : Prop :=
  ∃ pre post, b.data = pre ++ (bs ++ post) ∧ pre.length = off

/-- No allocation fails. -/
def Granted (b : Input) : Prop := ∀ off, b.alloc off = true

/-- On the encoding of `em`, wherever it stands, `p` returns `a` exactly if `good` holds and the
end of the data is near, and then it has read just that. -/
def Parses {α : Type} (p : Pull α) (em : Emit) (a : α) (good : Prop) : Prop :=
  ∀ bs, em.encoding = some bs → ∀ b off, Granted b → At b off bs → ∀ t,
    b.run p off = .ok (a, t) ↔ (good ∧ em.Near (b.size - off)) ∧ t = off + bs.length

/-- `em` writes no string of 16-bit units. -/
class Plain (em : Emit) : Prop where
  near : ∀ rest, em.Near rest

instance : Plain .nothing := ⟨fun _ => trivial⟩

instance (bs : Bytes) : Plain (.bytes bs) := ⟨fun _ => trivial⟩

instance {α : Type} (push : α → Emit) : Plain (pushEach push []) := ⟨fun _ => trivial⟩

instance (v : UInt8) : Plain (pushUint8 v) := ⟨fun _ => trivial⟩

instance (v : UInt16) : Plain (pushUint16 v) := ⟨fun _ => trivial⟩

instance (v : UInt32) : Plain (pushUint32 v) := ⟨fun _ => trivial⟩

instance (v : UInt64) : Plain (pushUint64 v) := ⟨fun _ => trivial⟩

instance {n : ℕ} (r : Block n) : Plain (pushBlock r) := ⟨fun _ => trivial⟩

instance (a b : Emit) [ha : Plain a] [hb : Plain b] : Plain (.seq a b) :=
  ⟨fun _ => ⟨ha.near _, hb.near _⟩⟩

variable {α β : Type} {p : Pull α} {em : Emit} {b : Input} {off : ℕ}

lemma at_append {bs cs : Bytes} :
    At b off (bs ++ cs) ↔ At b off bs ∧ At b (off + bs.length) cs := by
  constructor
  · rintro ⟨pre, post, hd, rfl⟩
    refine ⟨⟨pre, cs ++ post, by simpa using hd, rfl⟩, pre ++ bs, post, by simpa using hd, ?_⟩
    rw [List.length_append]
  · rintro ⟨⟨pre, post, hd, rfl⟩, pre', post', hd', hl⟩
    refine ⟨pre, post', ?_, rfl⟩
    -- the two splits have the same first part
    have hsplit : (pre ++ bs) ++ post = pre' ++ (cs ++ post') := by
      rw [← hd', hd, List.append_assoc]
    obtain ⟨h1, h2⟩ := List.append_inj hsplit (by rw [List.length_append, hl])
    rw [hd, h2, List.append_assoc]

lemma At.drop {bs : Bytes} (h : At b off bs) : ∃ post, b.data.drop off = bs ++ post := by
  obtain ⟨pre, post, hd, rfl⟩ := h
  exact ⟨post, by rw [hd, List.drop_left]⟩

lemma At.le {bs : Bytes} (h : At b off bs) : off + bs.length ≤ b.size := by
  obtain ⟨pre, post, hd, rfl⟩ := h
  rw [Input.size, hd]
  simp only [List.length_append]
  omega

lemma At.fetch {bs : Bytes} (h : At b off bs) {n next : ℕ} (hn : n = bs.length) :
    b.fetch off n next = .ok (bs, next) := by
  obtain ⟨post, hd⟩ := h.drop
  rw [Input.fetch, hn, if_pos h.le, hd, List.take_left]

lemma run_op_eq {o : PullOp} {k : o.Res → Pull α} :
    b.run (.op o k) off = (exec b o off).bind fun r => b.run (k r.1) r.2 :=
  run_op _ _ _ _

lemma run_ret {a : α} : b.run (pure a) off = .ok (a, off) := rfl

lemma run_then {f : α → Pull β} {c : β} {u : ℕ} : b.run (p >>= f) off = .ok (c, u) ↔
    ∃ a t, b.run p off = .ok (a, t) ∧ b.run (f a) t = .ok (c, u) :=
  run_bind_eq_ok _

lemma run_then_of {f : α → Pull β} {a : α} {t : ℕ} (h : b.run p off = .ok (a, t)) :
    b.run (p >>= f) off = b.run (f a) t := by
  unfold Input.run at *
  rw [run_bind, h]
  rfl

lemma Granted.run_alloc (h : Granted b) : b.run alloc off = .ok ((), off) := by
  rw [alloc, run_op_eq]
  simp only [exec, h off, if_true]
  rfl

lemma Granted.run_alloc_then (h : Granted b) : b.run (do alloc; p) off = b.run p off :=
  run_then_of h.run_alloc

lemma run_readFixed {bs : Bytes} (h : At b off bs) {n : ℕ} (hn : n = bs.length) :
    b.run (readFixed n) off = .ok (bs, off + bs.length) := by
  have hle := h.le
  rw [readFixed, run_op_eq]
  simp only [exec]
  rw [if_neg (by omega), h.fetch hn, hn]
  rfl

lemma run_readBytes {bs : Bytes} (h : At b off bs) {n : ℕ} (hn : n = bs.length) :
    b.run (readBytes n) off = .ok (bs, off + bs.length) := by
  have hle := h.le
  have hsize := b.size_lt
  change b.size < 2 ^ 32 at hsize
  rw [readBytes, run_op_eq]
  simp only [exec]
  rw [Nat.mod_eq_of_lt (by omega), if_neg (by omega), h.fetch hn, hn]
  rfl

lemma run_readBytes_length {n t : ℕ} {bs : Bytes}
    (h : b.run (readBytes n) off = .ok (bs, t)) : bs.length = n := by
  rw [readBytes, run_op_eq] at h
  simp only [exec] at h
  split_ifs at h with hc
  · cases h
  · unfold Input.fetch at h
    split_ifs at h with hle
    · cases h
      unfold Input.size at hle
      rw [List.length_take, List.length_drop]
      omega
    · cases h

lemma run_skip {n : ℕ} (h : off + n ≤ b.size) : b.run (skip n) off = .ok ((), off + n) := by
  have hsize := b.size_lt
  change b.size < 2 ^ 32 at hsize
  rw [skip, run_op_eq]
  simp only [exec]
  rw [Nat.mod_eq_of_lt (by omega), if_neg (by omega)]
  rfl

/-! Putting functions together. -/

lemma Parses.of_run [hplain : Plain em] {a : α} (h : ∀ bs, em.encoding = some bs → ∀ b off,
    Granted b → At b off bs → b.run p off = .ok (a, off + bs.length)) : Parses p em a True := by
  intro bs hbs b off hb hat t
  rw [h bs hbs b off hb hat]
  simp [hplain.near, eq_comm]

lemma Parses.congr {a : α} {g g' : Prop} (h : Parses p em a g) (hg : g ↔ g') :
    Parses p em a g' := by
  rwa [← propext hg]

/-- What has no encoding has nothing to be read back. -/
lemma Parses.of_none {a : α} {g : Prop} (h : em.encoding = none) : Parses p em a g := by
  intro bs hbs
  rw [h] at hbs
  cases hbs

lemma Parses.allocated {a : α} {g : Prop} (h : Parses p em a g) :
    Parses (do alloc; p) em a g := by
  intro bs hbs b off hb hat t
  rw [Granted.run_alloc_then hb]
  exact h bs hbs b off hb hat t

lemma Parses.ignored {a : α} {g : Prop} (h : Parses p em a g) : Parses p (.ignore em) a g := h

/-- One part after another, where the whole tells what the first part was. -/
lemma Parses.bind {k : α → Pull β} {e e' : Emit} {a : α} {c : β} {g g' : Prop}
    (h : Parses p e a g) (h' : Parses (k a) e' c g')
    (hdet : ∀ a', Returns (k a') c → a' = a) : Parses (p >>= k) (.seq e e') c (g ∧ g') := by
  intro bs hbs b off hb hat t
  obtain ⟨cs, ds, hcs, hds, rfl⟩ := encoding_seq.mp hbs
  obtain ⟨hat, hat'⟩ := at_append.mp hat
  have hp := h cs hcs b off hb hat
  have hk := h' ds hds b _ hb hat'
  rw [← Nat.sub_sub, length_encoding hcs] at hk
  rw [run_then, List.length_append, Emit.Near]
  constructor
  · rintro ⟨a', u, hu, ht⟩
    obtain rfl := hdet a' (returns_of_run ht)
    obtain ⟨⟨hg, hn⟩, rfl⟩ := (hp u).mp hu
    rw [length_encoding hcs] at ht
    obtain ⟨⟨hg', hn'⟩, rfl⟩ := (hk t).mp ht
    exact ⟨⟨⟨hg, hg'⟩, hn, hn'⟩, by rw [length_encoding hcs]; omega⟩
  · rintro ⟨⟨⟨hg, hg'⟩, hn, hn'⟩, rfl⟩
    refine ⟨a, _, (hp _).mpr ⟨⟨hg, hn⟩, rfl⟩, ?_⟩
    rw [length_encoding hcs]
    exact (hk _).mpr ⟨⟨hg', hn'⟩, by omega⟩

lemma Parses.run [hplain : Plain em] {a : α} (h : Parses p em a True) {bs : Bytes}
    (hbs : em.encoding = some bs) (hb : Granted b) (hat : At b off bs) :
    b.run p off = .ok (a, off + bs.length) :=
  (h bs hbs b off hb hat _).mpr ⟨⟨trivial, hplain.near _⟩, rfl⟩

/-- A part that is always read back comes first. -/
lemma Parses.then {k : α → Pull β} {e e' : Emit} {a : α} {c : β} {g : Prop} [hplain : Plain e]
    (h : Parses p e a True) (h' : Parses (k a) e' c g) : Parses (p >>= k) (.seq e e') c g := by
  intro bs hbs b off hb hat t
  obtain ⟨cs, ds, hcs, hds, rfl⟩ := encoding_seq.mp hbs
  obtain ⟨hat, hat'⟩ := at_append.mp hat
  rw [run_then_of (h.run hcs hb hat), h' ds hds b _ hb hat', List.length_append,
    Nat.add_assoc, Emit.Near, ← Nat.sub_sub, ← length_encoding hcs, and_iff_right (hplain.near _)]

/-- The last part, from which the whole is built. -/
lemma Parses.map {f : α → β} {a : α} {g : Prop} (h : Parses p em a g)
    (hinj : ∀ a', f a = f a' → a' = a) :
    Parses (do
      let v ← p
      pure (f v)) em (f a) g := by
  intro bs hbs b off hb hat t
  rw [← h bs hbs b off hb hat t, run_then]
  constructor
  · rintro ⟨a', u, hu, ht⟩
    rw [run_ret, Except.ok.injEq, Prod.mk.injEq] at ht
    obtain ⟨hf, rfl⟩ := ht
    rwa [← hinj a' hf.symm]
  · intro hu
    exact ⟨a, t, hu, rfl⟩

/-- The last part, where it tells what the whole is. -/
lemma Parses.last {k : α → Pull β} {a : α} {c : β} [Plain em] (h : Parses p em a True)
    (hk : k a = pure c) : Parses (p >>= k) em c True := by
  apply Parses.of_run
  intro bs hbs b off hb hat
  rw [run_then_of (h.run hbs hb hat), hk, run_ret]

/-- What is always read back is not read as anything else. -/
lemma Parses.only [hplain : Plain em] {a c : α} (h : Parses p em a True) :
    Parses p em c (a = c) := by
  intro bs hbs b off hb hat t
  rw [h.run hbs hb hat]
  simp [hplain.near, eq_comm]

lemma Parses.as {f : α → β} {a : α} {g : Prop} (h : Parses p em a g)
    (hinj : ∀ a', f a = f a' → a' = a) : Parses (pullAs p f) em (f a) g :=
  (h.map hinj).allocated

/-- As many parts as the list has. -/
lemma Parses.times {push : α → Emit} {good : α → Prop} {l : List α} {n : ℕ}
    (h : ∀ v ∈ l, Parses p (push v) v (good v)) :
    Parses (p.replicate n) (pushEach push l) l (l.length = n ∧ ∀ v ∈ l, good v) := by
  induction l generalizing n with
  | nil =>
    cases n with
    | zero =>
      refine Parses.congr (Parses.of_run ?_) (by simp)
      intro bs hbs b off hb hat
      cases hbs
      rfl
    | succ n =>
      intro bs hbs b off hb hat t
      refine ⟨fun hr => ?_, fun hg => by simp at hg⟩
      have := returns_replicate (returns_of_run hr)
      simp at this
  | cons v l ih =>
    obtain ⟨hv, hl⟩ := List.forall_mem_cons.mp h
    cases n with
    | zero =>
      intro bs hbs b off hb hat t
      refine ⟨fun hr => ?_, fun hg => by simp at hg⟩
      have := returns_replicate (returns_of_run hr)
      simp at this
    | succ n =>
      have htail := (ih (n := n) hl).map (f := (v :: ·)) (fun l' hl' => by simpa using hl'.symm)
      refine Parses.congr (Parses.bind hv htail ?_) ?_
      · intro v' hv'
        obtain ⟨m, -, hm⟩ := returns_bind.mp hv'
        rw [returns_pure, List.cons.injEq] at hm
        exact hm.1.symm
      · simp only [List.length_cons, List.forall_mem_cons, Nat.add_right_cancel_iff]
        tauto

lemma Parses.elements {push : α → Emit} {good : α → Prop} {l : List α} {n : ℕ}
    (h : ∀ v ∈ l, Parses p (push v) v (good v)) :
    Parses (pullElements p n) (pushEach push l) l (l.length = n ∧ ∀ v ∈ l, good v) := by
  -- a count of zero is read without an allocation
  unfold pullElements
  split_ifs with hn
  · subst hn
    exact Parses.times (p := p) (n := 0) h
  · exact (Parses.times h).allocated

lemma Parses.nonempty {push : α → Emit} {good : α → Prop} {l : List α} {n : ℕ} (hn : n ≠ 0)
    (h : ∀ v ∈ l, Parses p (push v) v (good v)) :
    Parses (pullSome p n) (pushEach push l) l (l.length = n ∧ ∀ v ∈ l, good v) := by
  unfold pullSome
  rw [if_neg hn]
  exact (Parses.times h).allocated

lemma run_within {n t : ℕ} {a : α} : b.run (pullWithin n p) off = .ok (a, t) ↔
    ∃ u, b.run p off = .ok (a, u) ∧ u ≤ (off + n) % 2 ^ 32 ∧ t = (off + n) % 2 ^ 32 := by
  have htell : b.run tell off = .ok (off, off) := rfl
  have hclose : ∀ e u, b.run (closeAt e) u = if e < u then stop .format u else .ok ((), e) := by
    intro e u
    rw [closeAt, run_op_eq]
    simp only [exec]
    split_ifs <;> rfl
  rw [pullWithin, run_then_of htell, run_then]
  constructor
  · rintro ⟨a', u, hu, hc⟩
    obtain ⟨_, e, he, hr⟩ := run_then.mp hc
    rw [hclose] at he
    split_ifs at he with hlt
    · cases he
    · cases he
      cases hr
      exact ⟨u, hu, by omega, rfl⟩
  · rintro ⟨u, hu, hle, rfl⟩
    refine ⟨a, u, hu, ?_⟩
    rw [run_then_of (by rw [hclose, if_neg (by omega)])]
    rfl

/-- The size patched in before a part is its size in 16 bits. -/
lemma run_size {cs : Bytes} (hcs : em.encoding = some cs) (hat : At b off (le 2 cs.length)) :
    b.run pullUint16 off = .ok (.ofNat em.size, off + 2) := by
  have hv : UInt16.ofNat (cs.length % 256 ^ 2) = .ofNat em.size := by
    rw [length_encoding hcs]
    apply UInt16.toNat_inj.mp
    simp only [UInt16.toNat_ofNat']
    omega
  rw [pullUint16, run_then_of (run_readFixed hat (by rw [length_le])), run_ret, ofLE_le, hv,
    length_le]

/-- A part behind its size, which must fit 16 bits. -/
lemma Parses.within {a : α} {g : Prop} (h : Parses p em a g) :
    Parses (do
      let size ← pullUint16
      pullWithin size.toNat p) (.sized 2 em) a (g ∧ em.size < 2 ^ 16) := by
  intro bs hbs b off hb hat t
  obtain ⟨cs, hcs, rfl⟩ := encoding_sized.mp hbs
  obtain ⟨hat, hat'⟩ := at_append.mp hat
  rw [length_le] at hat'
  have hp := h cs hcs b _ hb hat'
  have hle := hat'.le
  have hbound := b.size_lt
  change b.size < 2 ^ 32 at hbound
  rw [run_then_of (run_size hcs hat), run_within, UInt16.toNat_ofNat', ← length_encoding hcs,
    List.length_append, length_le, Nat.mod_eq_of_lt (by omega : _ < 2 ^ 32), Emit.Near,
    Nat.sub_sub]
  constructor
  · rintro ⟨u, hu, hle, rfl⟩
    obtain ⟨⟨hg, hn⟩, rfl⟩ := (hp u).mp hu
    have hlt : cs.length < 2 ^ 16 := by omega
    exact ⟨⟨⟨hg, hlt⟩, hn⟩, by omega⟩
  · rintro ⟨⟨⟨hg, hlt⟩, hn⟩, rfl⟩
    exact ⟨_, (hp _).mpr ⟨⟨hg, hn⟩, rfl⟩, by omega, by omega⟩

/-- A part that is read, and kept, with its size. -/
lemma Parses.measured {k : UInt16 → Pull α} {length : UInt16} {a : α} {g : Prop}
    (h : Parses (k length) em a g) (hdet : ∀ length', Returns (k length') a → length' = length) :
    Parses (pullUint16 >>= k) (.sized 2 em) a (length.toNat = em.size % 2 ^ 16 ∧ g) := by
  intro bs hbs b off hb hat t
  obtain ⟨cs, hcs, rfl⟩ := encoding_sized.mp hbs
  obtain ⟨hat, hat'⟩ := at_append.mp hat
  rw [length_le] at hat'
  have hlength : UInt16.ofNat em.size = length ↔ length.toNat = em.size % 2 ^ 16 := by
    rw [← UInt16.toNat_inj, UInt16.toNat_ofNat', eq_comm]
  rw [run_then_of (run_size hcs hat), List.length_append, length_le, ← Nat.add_assoc, ← hlength,
    Emit.Near, Nat.sub_sub]
  constructor
  · intro hr
    have heq := hdet _ (returns_of_run hr)
    rw [heq] at hr
    obtain ⟨⟨hg, hn⟩, ht⟩ := (h cs hcs b _ hb hat' t).mp hr
    exact ⟨⟨⟨heq, hg⟩, hn⟩, ht⟩
  · rintro ⟨⟨⟨heq, hg⟩, hn⟩, ht⟩
    rw [heq]
    exact (h cs hcs b _ hb hat' t).mpr ⟨⟨hg, hn⟩, ht⟩

/-- A part whose size is read and not used. -/
lemma Parses.sized_seq {k : UInt16 → Pull α} {e : Emit} {a : α} {g : Prop}
    (h : ∀ size, Parses (k size) (.seq em e) a g) :
    Parses (pullUint16 >>= k) (.seq (.sized 2 em) e) a g := by
  intro bs hbs b off hb hat t
  obtain ⟨_, ds, hsized, hds, rfl⟩ := encoding_seq.mp hbs
  obtain ⟨cs, hcs, rfl⟩ := encoding_sized.mp hsized
  rw [List.append_assoc] at hat
  obtain ⟨hat, hat'⟩ := at_append.mp hat
  rw [length_le] at hat'
  have henc : (Emit.seq em e).encoding = some (cs ++ ds) :=
    encoding_seq.mpr ⟨cs, ds, hcs, hds, rfl⟩
  rw [run_then_of (run_size hcs hat), h _ (cs ++ ds) henc b _ hb hat']
  simp only [List.length_append, length_le, Nat.add_assoc, Emit.Near, Emit.size, Nat.sub_sub]

end SteepSystem.ExtBuffer
