import SteepSystem.Pcls.Spec

/-!
The cursor of `pcl_deserialize`. It has 16 bits where a binary has up to 2³² - 1 bytes: an XID
that ends at index 65536 or later takes it back to the front of the binary.
-/

namespace SteepSystem.Pcls.Cursor

open SteepSystem.Pcls.Model SteepSystem.Pcls.Spec

variable (pbin : List UInt8) (ppcl : PclList)

/-- The indices that `pcl_pull_sized_xid` reads at an offset. -/
def reads (offset : ℕ) : List ℕ :=
  if pbin.length ≤ offset then []
  else
    let size := (pbin.getD offset 0).toNat
    if size < 17 ∨ 24 < size ∨ offset + 1 + size > pbin.length then [offset]
    else offset :: (List.range size).map fun i => (offset + 1) % 65536 + i

/-- The states in which a turn of the loop is begun. -/
inductive Reached : ℕ → PclList → Prop
  | start : Reached 0 ppcl
  | turn {offset : ℕ} {l l' : PclList} {xid : SizedXid} : Reached offset l →
      pclPullSizedXid pbin offset = some xid → pclAppend l xid = (true, l') →
      pbin.length ≠ (offset + (xid.size + 1)) % 65536 →
      Reached ((offset + (xid.size + 1)) % 65536) l'

/-- The call ends; every turn reads within the binary, and leaves the cursor further behind
unless it is the last one. -/
structure Bounded : Prop where
  ends : ∃ fuel, (pclDeserialize fuel ppcl pbin).isSome
  reads : ∀ offset l, Reached pbin ppcl offset l → ∀ i ∈ reads pbin offset, i < pbin.length
  advances : ∀ offset l l' xid, Reached pbin ppcl offset l →
    pclPullSizedXid pbin offset = some xid → pclAppend l xid = (true, l') →
    offset < (offset + (xid.size + 1)) % 65536

/-- The places of the XIDs that stand one behind the other from the front of the binary, up to
the first one that is malformed or that the list refuses. -/
inductive Standing : ℕ → PclList → Prop
  | start : Standing 0 ppcl
  | xid {k : ℕ} {l l' : PclList} {xid : SizedXid} : Standing k l →
      pclPullSizedXid pbin k = some xid → pclAppend l xid = (true, l') →
      Standing (k + (xid.size + 1)) l'

variable {pbin ppcl}

/-- The wrapped index of the GUID is no further behind than the true one. -/
lemma reads_lt {offset i : ℕ} (h : i ∈ reads pbin offset) : i < pbin.length := by
  rw [reads] at h
  dsimp only at h
  split_ifs at h with hend hsize
  · cases h
  · rw [List.mem_singleton.mp h]
    omega
  · have hmod := Nat.mod_le (offset + 1) 65536
    rcases List.mem_cons.mp h with rfl | h
    · omega
    · obtain ⟨j, hj, rfl⟩ := List.mem_map.mp h
      have hj := List.mem_range.mp hj
      omega

section Short

variable (hshort : ∀ k l, Standing pbin ppcl k l → k < 65536)
include hshort

lemma Reached.standing {offset : ℕ} {l : PclList} (h : Reached pbin ppcl offset l) :
    Standing pbin ppcl offset l := by
  induction h with
  | start => exact .start
  | turn _ hxid happ _ ih =>
    have hnext := ih.xid hxid happ
    rw [Nat.mod_eq_of_lt (hshort _ _ hnext)]
    exact hnext

/-- From an offset on, as many turns are enough as there are indices behind it. -/
lemma deserializeLoop_isSome {fuel offset : ℕ} {l : PclList} (h : Standing pbin ppcl offset l)
    (hfuel : 65536 < offset + fuel) : (deserializeLoop pbin fuel offset l).isSome := by
  induction fuel generalizing offset l with
  | zero =>
    have := hshort _ _ h
    omega
  | succ fuel ih =>
    rw [deserializeLoop]
    cases hxid : pclPullSizedXid pbin offset with
    | none => rfl
    | some xid =>
      rcases happ : pclAppend l xid with ⟨ok, l'⟩
      cases ok with
      | false => simp only [happ, Option.isSome_some]
      | true =>
        have hnext := h.xid hxid happ
        simp only [happ, Nat.mod_eq_of_lt (hshort _ _ hnext)]
        split_ifs
        · rfl
        · exact ih hnext (by omega)

lemma bounded_of_short : Bounded pbin ppcl where
  ends := ⟨65537, deserializeLoop_isSome hshort .start (by norm_num)⟩
  reads _ _ _ _ := reads_lt
  advances _ _ _ _ h hxid happ := by
    rw [Nat.mod_eq_of_lt (hshort _ _ ((h.standing hshort).xid hxid happ))]
    omega

end Short

/-- A cursor that never goes back has not gone round. -/
lemma Bounded.standing (h : Bounded pbin ppcl) {k : ℕ} {l : PclList}
    (hk : Standing pbin ppcl k l) :
    k < 65536 ∧ (Reached pbin ppcl k l ∨ pbin.length = k) := by
  induction hk with
  | start => exact ⟨by norm_num, .inl .start⟩
  | @xid k l l' xid _ hxid happ ih =>
    obtain ⟨-, hsize, hle⟩ := pclPullSizedXid_some hxid
    obtain ⟨hlt, hk | hk⟩ := ih
    · have hadv := h.advances _ _ _ _ hk hxid happ
      have hnext : k + (xid.size + 1) < 65536 := by omega
      refine ⟨hnext, ?_⟩
      by_cases hend : pbin.length = k + (xid.size + 1)
      · exact .inr hend
      · have hturn := hk.turn hxid happ (by rwa [Nat.mod_eq_of_lt hnext])
        rw [Nat.mod_eq_of_lt hnext] at hturn
        exact .inl hturn
    · omega

/-- **The cursor.** The call ends with every turn within the binary and the cursor further
behind after each if and only if the XIDs that it takes end below index 65536. -/
theorem deserialize_bounded_iff (pbin : List UInt8) (ppcl : PclList) :
    Bounded pbin ppcl ↔ ∀ k l, Standing pbin ppcl k l → k < 65536 :=
  ⟨fun h _ _ hk => (h.standing hk).1, bounded_of_short⟩

/-- Of a binary that holds nothing but the byte 17 every place is the one of an XID. -/
lemma pull_seventeen {n offset : ℕ} (h : offset + 18 ≤ n) :
    pclPullSizedXid (List.replicate n 17) offset =
      some ⟨⟨List.replicate 16 17, rfl⟩, [17]⟩ := by
  have hmod := Nat.mod_le (offset + 1) 65536
  have hget : (List.replicate n (17 : UInt8)).getD offset 0 = 17 := by
    simp [List.getD, show offset < n by omega]
  have hguid : (List.replicate (n - (offset + 1) % 65536) (17 : UInt8)).take 16 =
      List.replicate 16 17 := by
    rw [List.take_replicate, Nat.min_eq_left (by omega)]
  have hsize : (17 : UInt8).toNat = 17 := rfl
  have hid : min (17 - 16) (n - (offset + 1) % 65536 - 16) = 1 := by omega
  rw [pclPullSizedXid]
  simp only [List.length_replicate, hget, hsize, List.drop_replicate, hguid, List.take_replicate,
    hid]
  rw [if_neg (by omega), if_neg (by omega), dif_pos trivial]
  rfl

/-- In 65560 bytes of 17 the cursor goes round for ever: the XIDs are all the same, so that none
is refused, and no place below 65536 is the end. -/
theorem not_deserialize_ends :
    (List.replicate 65560 (17 : UInt8)).length < 2 ^ 32 ∧
      ∀ fuel, pclDeserialize fuel [] (List.replicate 65560 17) = none := by
  refine ⟨by rw [List.length_replicate]; norm_num, fun fuel => ?_⟩
  have hloop : ∀ fuel offset l, offset < 65536 →
      (l = [] ∨ l = [⟨⟨List.replicate 16 17, rfl⟩, [17]⟩]) →
      deserializeLoop (List.replicate 65560 17) fuel offset l = none := by
    intro fuel
    induction fuel with
    | zero => exact fun _ _ _ _ => rfl
    | succ fuel ih =>
      intro offset l hlt hl
      have happ : pclAppend l ⟨⟨List.replicate 16 17, rfl⟩, [17]⟩ =
          (true, [⟨⟨List.replicate 16 17, rfl⟩, [17]⟩]) := by
        rcases hl with rfl | rfl <;> rfl
      have hmod := Nat.mod_lt (offset + (SizedXid.size ⟨⟨List.replicate 16 17, rfl⟩, [17]⟩ + 1))
        (show 0 < 65536 by norm_num)
      rw [deserializeLoop, pull_seventeen (by omega)]
      simp only [happ, List.length_replicate]
      rw [if_neg (by omega)]
      exact ih _ _ hmod (.inr rfl)
  exact hloop fuel 0 [] (by norm_num) (.inl rfl)

end SteepSystem.Pcls.Cursor
