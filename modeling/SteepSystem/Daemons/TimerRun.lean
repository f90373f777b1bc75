import SteepSystem.Daemons.Timer
import SteepSystem.Lib.Runs

/-!
What the list file says of the timers, and what is left of it after a run.
-/

namespace SteepSystem.Daemons.Timer

open SteepSystem.Lib SteepSystem.Lib.CStrings SteepSystem.Lib.Runs SteepSystem.Daemons.ListFile

variable {items : List Timer} {t u : Timer} {i j k : ℕ}

/-! ### The Items -/

/-- An item adds a timer or ends it, and does so once. -/
def key (t : Timer) : ℤ × Bool := (t.tId, t.execTime == 0)

/-- There is an item that ends the timer. -/
def isEnded (items : List Timer) (t : Timer) : Bool :=
  items.any fun u => u.execTime == 0 && u.tId == t.tId

/-- The items of the timers that have not ended. -/
def pending (items : List Timer) : List Timer :=
  items.filter fun t => t.execTime != 0 && !isEnded items t

@[simp] lemma zero_tId : (zero t).tId = t.tId := rfl

@[simp] lemma zero_execTime : (zero t).execTime = 0 := rfl

@[simp] lemma zero_zero : zero (zero t) = zero t := rfl

lemma zero_of_eq (h : t.execTime = 0) : zero t = t := by
  cases t
  simp_all [zero]

lemma isEnded_append {more : List Timer} :
    isEnded (items ++ more) t = (isEnded items t || isEnded more t) := List.any_append

/-- The item at `j` is another one with this identifier. -/
def IsOther (items : List Timer) (i : ℕ) (tId : ℤ) (j : ℕ) : Prop :=
  i ≠ j ∧ ∃ t, items[j]? = some t ∧ t.tId = tId

lemma getElem?_zeroFirst {tId : ℤ}
    (h : ∀ j j', IsOther items i tId j → IsOther items i tId j' → j = j') (j : ℕ) :
    (zeroFirst i tId items)[j]? =
      if i ≠ j ∧ (items[j]?).any (·.tId == tId) then items[j]?.map zero else items[j]? := by
  have hiff : ∀ j, (i != j && (items[j]?).any (·.tId == tId)) = true ↔ IsOther items i tId j := by
    intro j
    simp [IsOther, Option.any_eq_true]
  unfold zeroFirst
  cases hfind : (List.range items.length).find? _ with
  | none =>
    rw [List.find?_eq_none] at hfind
    rw [if_neg]
    rintro ⟨hij, hany⟩
    obtain ⟨t, ht, -⟩ := (Option.any_eq_true _ _).mp hany
    have hj : j < items.length := (List.getElem?_eq_some_iff.mp ht).1
    exact hfind j (List.mem_range.mpr hj) (by simp [hij, hany])
  | some j' =>
    have hsome := List.find?_some hfind
    have hj' := (hiff j').mp hsome
    simp only [List.getElem?_modify]
    by_cases hjj : j' = j
    · subst hjj
      obtain ⟨hij, t, ht, htid⟩ := hj'
      simp [hij, ht, htid]
    · simp only [if_neg hjj]
      rw [if_neg]
      · simp
      · rintro ⟨hij, hany⟩
        obtain ⟨t, ht, htid⟩ := (Option.any_eq_true _ _).mp hany
        exact hjj (h j' j hj' ⟨hij, t, ht, by simpa using htid⟩)

lemma key_inj (h : (items.map key).Nodup) (hi : items[i]? = some t) (hj : items[j]? = some u)
    (hkey : key t = key u) : i = j := by
  have hlt : i < (items.map key).length := by
    rw [List.length_map]
    exact (List.getElem?_eq_some_iff.mp hi).1
  refine (List.getElem?_inj hlt h).mp ?_
  rw [List.getElem?_map, List.getElem?_map, hi, hj, Option.map_some, Option.map_some, hkey]

/-- The items once those up to `k` that end a timer have been looked at. -/
def settledTo (items : List Timer) (k : ℕ) (t : Timer) : Timer :=
  if isEnded (items.take k) t then zero t else t

lemma settledTo_of_eq (h : t.execTime = 0) : settledTo items k t = t := by
  unfold settledTo
  split_ifs
  · exact zero_of_eq h
  · rfl

lemma settledTo_tId : (settledTo items k t).tId = t.tId := by
  unfold settledTo
  split_ifs <;> rfl

lemma isEnded_take_succ (hk : items[k]? = some u) :
    isEnded (items.take (k + 1)) t =
      (isEnded (items.take k) t || (u.execTime == 0 && u.tId == t.tId)) := by
  rw [List.take_add_one, hk, isEnded_append]
  simp [isEnded]

/-- One turn of the outer loop. -/
lemma settleAt_eq (h : (items.map key).Nodup) (hk : items[k]? = some u) :
    settleAt (items.map (settledTo items k)) k = items.map (settledTo items (k + 1)) := by
  rw [settleAt, List.getElem?_map, hk, Option.map_some]
  simp only
  apply List.ext_getElem?
  intro j
  split_ifs with hzero
  · have hother : ∀ j t, k ≠ j → items[j]? = some t → t.tId = u.tId →
        (t.execTime = 0 ↔ u.execTime ≠ 0) := by
      intro j t hkj hj htid
      by_contra hne
      refine hkj (key_inj h hk hj ?_)
      by_cases hu : u.execTime = 0 <;> simp_all [key]
    have hids : ∀ j, IsOther (items.map (settledTo items k)) k (settledTo items k u).tId j ↔
        k ≠ j ∧ ∃ t, items[j]? = some t ∧ t.tId = u.tId := by
      intro j
      simp only [IsOther, List.getElem?_map, Option.map_eq_some_iff, settledTo_tId]
      constructor
      · rintro ⟨hkj, _, ⟨t, ht, rfl⟩, htid⟩
        exact ⟨hkj, t, ht, by rwa [settledTo_tId] at htid⟩
      · rintro ⟨hkj, t, ht, htid⟩
        exact ⟨hkj, _, ⟨t, ht, rfl⟩, by rwa [settledTo_tId]⟩
    rw [getElem?_zeroFirst, List.getElem?_map, List.getElem?_map, settledTo_tId]
    · cases hj : items[j]? with
      | none => simp
      | some t =>
        simp only [Option.map_some, Option.any_some, settledTo_tId, beq_iff_eq]
        have hsucc := isEnded_take_succ (t := t) hk
        by_cases hcond : k ≠ j ∧ t.tId = u.tId
        · -- the item that is ended, or one that ends and stays as it is
          rw [if_pos hcond]
          have hoth := hother j t hcond.1 hj hcond.2
          by_cases hu : u.execTime = 0
          · simp only [settledTo, hsucc, hu, hcond.2]
            split_ifs <;> simp_all
          · have ht : t.execTime = 0 := hoth.mpr hu
            rw [settledTo_of_eq ht, settledTo_of_eq ht, zero_of_eq ht]
        · rw [if_neg hcond]
          by_cases hkj : k = j
          · have htu : t = u := by
              subst hkj
              exact Option.some.inj (hj.symm.trans hk)
            subst htu
            by_cases ht : t.execTime = 0
            · rw [settledTo_of_eq ht, settledTo_of_eq ht]
            · simp [settledTo, hsucc, ht]
          · have htu : ¬ u.tId = t.tId := fun he => hcond ⟨hkj, he.symm⟩
            simp [settledTo, hsucc, htu]
    · intro j j' hj hj'
      obtain ⟨hkj, t, ht, htid⟩ := (hids j).mp hj
      obtain ⟨hkj', t', ht', htid'⟩ := (hids j').mp hj'
      refine key_inj h ht ht' ?_
      have h1 := hother j t hkj ht htid
      have h2 := hother j' t' hkj' ht' htid'
      have hiff := h1.trans h2.symm
      by_cases hz : t.execTime = 0 <;> simp_all [key]
  · have hu : u.execTime ≠ 0 := by
      intro hu
      rw [settledTo_of_eq hu] at hzero
      exact hzero hu
    rw [List.getElem?_map, List.getElem?_map]
    cases hj : items[j]? with
    | none => rfl
    | some t =>
      have hsucc := isEnded_take_succ (t := t) hk
      simp [settledTo, hsucc, hu]

/-- **The pairing**: where no item is there twice, exactly the timers that an item ends are taken
out. -/
lemma settle_eq (h : (items.map key).Nodup) :
    settle items = items.map fun t => if isEnded items t then zero t else t := by
  have hfold : ∀ k ≤ items.length, (List.range k).foldl settleAt items =
      items.map (settledTo items k) := by
    intro k
    induction k with
    | zero =>
      intro _
      have : settledTo items 0 = id := by
        funext t
        simp [settledTo, isEnded]
      simp [this]
    | succ k ih =>
      intro hk
      have hget : items[k]? = some items[k] := List.getElem?_eq_getElem (by omega)
      rw [List.range_succ, List.foldl_append, ih (by omega), List.foldl_cons, List.foldl_nil]
      exact settleAt_eq h hget
  have := hfold items.length le_rfl
  rw [settle, this]
  refine List.map_congr_left fun t _ => ?_
  rw [settledTo, List.take_length]

lemma filter_settle (h : (items.map key).Nodup) :
    (settle items).filter (·.execTime ≠ 0) = pending items := by
  rw [settle_eq h, List.filter_map, pending]
  have hfilter : items.filter ((fun t : Timer => decide (t.execTime ≠ 0)) ∘
      fun t => if isEnded items t then zero t else t) =
      items.filter fun t => t.execTime != 0 && !isEnded items t := by
    refine List.filter_congr fun t _ => ?_
    by_cases ht : isEnded items t <;> by_cases hz : t.execTime = 0 <;> simp [ht, hz]
  rw [hfilter]
  refine (List.map_congr_left fun t ht => ?_).trans (List.map_id _)
  have := (List.mem_filter.mp ht).2
  simp only [Bool.and_eq_true, Bool.not_eq_true'] at this
  simp [this.2]

lemma mem_pending : t ∈ pending items ↔
    t ∈ items ∧ t.execTime ≠ 0 ∧ ∀ u ∈ items, u.execTime = 0 → u.tId ≠ t.tId := by
  simp [pending, isEnded]

lemma nodup_pending (h : (items.map key).Nodup) : ((pending items).map (·.tId)).Nodup := by
  rw [List.Nodup, List.pairwise_map] at h ⊢
  have hsub := h.sublist (List.filter_sublist (p := fun t => t.execTime != 0 && !isEnded items t))
  refine hsub.imp_of_mem fun {t u} ht hu hne htid => hne ?_
  have ht' := (mem_pending.mp ht).2.1
  have hu' := (mem_pending.mp hu).2.1
  simp [key, htid, ht', hu']

lemma pending_concat_new (ht : t.execTime ≠ 0) (h : ∀ u ∈ items, u.tId ≠ t.tId) :
    pending (items ++ [t]) = pending items ++ [t] := by
  have hended : ∀ u, isEnded [t] u = false := fun u => by simp [isEnded, ht]
  have hnot : isEnded items t = false := by
    simp only [isEnded, List.any_eq_false]
    exact fun u hu => by simp [h u hu]
  simp [pending, isEnded_append, hended, hnot, ht]

lemma pending_concat_end (ht : t.execTime = 0) :
    pending (items ++ [t]) = (pending items).filter (·.tId != t.tId) := by
  have hended : ∀ u, isEnded [t] u = (t.tId == u.tId) := fun u => by simp [isEnded, ht]
  rw [pending, List.filter_append, pending, List.filter_filter]
  have hlast : [t].filter (fun u => u.execTime != 0 && !isEnded (items ++ [t]) u) = [] := by
    simp [ht]
  rw [hlast, List.append_nil]
  refine List.filter_congr fun u _ => ?_
  rw [isEnded_append, hended]
  by_cases hu : t.tId = u.tId
  · simp [hu]
  · have h1 : (t.tId == u.tId) = false := by simpa using hu
    have h2 : (u.tId != t.tId) = true := by simpa using Ne.symm hu
    simp [h1, h2]

lemma pending_pending : pending (pending items) = pending items := by
  refine List.filter_eq_self.mpr fun t ht => ?_
  have hne := (mem_pending.mp ht).2.1
  have hended : isEnded (pending items) t = false := by
    simp only [isEnded, List.any_eq_false]
    exact fun u hu => by simp [(mem_pending.mp hu).2.1]
  simp [hne, hended]

/-! ### The List in Memory -/

open scoped List

lemma putTimer_perm (l : List Timer) (t : Timer) : putTimer l t ~ t :: l := by
  induction l with
  | nil => rfl
  | cons u l ih =>
    rw [putTimer]
    split_ifs
    · rfl
    · exact (ih.cons u).trans (List.Perm.swap t u l)

lemma executeDue_perm (now : ℤ) (l : List Timer) :
    l ~ (executeDue now l).1 ++ (executeDue now l).2 := by
  fun_induction executeDue now l with
  | case1 => rfl
  | case2 | case3 | case4 => simp
  | case5 t u l _ r ih =>
    rw [List.cons_append]
    exact ((ih.cons u).trans List.perm_middle.symm).cons t

lemma restore_execList {allocates : ℕ → Bool} (hall : ∀ i, allocates i) (l acc : List Timer)
    (n : ℕ) :
    (l.zipIdx n).foldl (fun execList p =>
      if p.1.execTime ≠ 0 ∧ allocates p.2 then putTimer execList p.1 else execList) acc ~
        acc ++ l.filter (·.execTime ≠ 0) := by
  induction l generalizing acc n with
  | nil => simp
  | cons t l ih =>
    rw [List.zipIdx_cons, List.foldl_cons]
    refine (ih _ _).trans ?_
    by_cases ht : t.execTime = 0
    · simp [ht]
    · simp only [hall, and_true, ne_eq, ht, not_false_eq_true, if_true]
      rw [List.filter_cons_of_pos (by simpa using ht)]
      exact ((putTimer_perm acc t).append_right _).trans List.perm_middle.symm

lemma foldl_lastTid {l : List Timer} {a b : ℤ} (hab : a ≤ b) (h : ∀ t ∈ l, t.tId ≤ b)
    (hb : a = b ∨ ∃ t ∈ l, t.tId = b) :
    l.foldl (fun lastTid t => if lastTid < t.tId then t.tId else lastTid) a = b := by
  induction l generalizing a with
  | nil =>
    rcases hb with rfl | ⟨t, ht, -⟩
    · rfl
    · cases ht
  | cons t l ih =>
    have ht := h t List.mem_cons_self
    rw [List.foldl_cons]
    refine ih (by split_ifs <;> omega) (fun u hu => h u (List.mem_cons_of_mem _ hu)) ?_
    rcases hb with rfl | ⟨u, hu, htid⟩
    · exact Or.inl (by split_ifs <;> omega)
    · rcases List.mem_cons.mp hu with rfl | hu
      · exact Or.inl (by split_ifs <;> omega)
      · exact Or.inr ⟨u, hu, htid⟩

/-! ### The Invariant -/

def linesOf (items : List Timer) : List UInt8 := items.flatMap fun t => format t ++ [10]

/-- The list file holds the items; the timers that have not ended are those in memory; and no
identifier has been handed out twice, or has ended twice. -/
structure Inv (s : Service) (log : List Output) (items : List Timer) : Prop where
  listFile : s.listFile = linesOf items
  writable : ∀ t ∈ items, Writable t
  keys : (items.map key).Nodup
  execList : s.execList ~ pending items
  lastTid : 0 ≤ s.lastTid
  tId_le : ∀ t ∈ items, t.tId ≤ s.lastTid
  handedOut : (log.filterMap Output.handedOut).Nodup
  handedOut_le : ∀ tId ∈ log.filterMap Output.handedOut, tId ≤ s.lastTid
  ended : (log.filterMap Output.ended).Nodup
  ended_le : ∀ tId ∈ log.filterMap Output.ended, tId ≤ s.lastTid
  ended_ne : ∀ tId ∈ log.filterMap Output.ended, ∀ t ∈ pending items, t.tId ≠ tId

variable {s s' : Service} {log outs : List Output} {rest : List Timer} {result : List UInt8}

lemma endLine_eq (t : Timer) (hresult : encodeLine result = result) :
    endLine t.tId result = format ⟨t.tId, 0, result⟩ ++ [10] := by
  have : formatInt 0 = [48] := rfl
  simp [endLine, format, this, hresult]

/-- A result stands on the line as it is. -/
structure IsResult (result : List UInt8) : Prop where
  encode : encodeLine result = result
  ne : result ≠ []
  length : result.length < 100
  plain : result.all fun c => c != 0 && (c != 10 && c != 13)

lemma isResult_outcome (o : Outcome) : IsResult o.result := by
  cases o <;> constructor <;> decide

lemma isResult_cancel : IsResult (bytes "CANCEL") := by
  constructor <;> decide

lemma length_formatInt {z : ℤ} (h0 : 0 ≤ z) (h : z < 2 ^ 31) : (formatInt z).length ≤ 10 := by
  rw [formatInt, if_neg (by omega), decimal, List.length_map,
    Nat.length_toDigits_le_iff (by decide) (by decide)]
  omega

lemma writable_end (ht : Writable t) (h : IsResult result) : Writable ⟨t.tId, 0, result⟩ where
  tId_nonneg := ht.tId_nonneg
  tId_lt := ht.tId_lt
  execTime_nonneg := le_rfl
  execTime_lt := by norm_num
  command_ne := h.ne
  command_length := by
    have := h.length
    simp only
    omega
  plain := by simpa using h.plain
  fits := by
    have hid := length_formatInt ht.tId_nonneg ht.tId_lt
    have hlen := h.length
    have hzero : formatInt 0 = [48] := rfl
    simp only [format, h.encode, hzero, List.length_append, List.length_cons, List.length_nil]
    omega

lemma linesOf_concat : linesOf (items ++ [t]) = linesOf items ++ (format t ++ [10]) := by
  simp [linesOf]

/-- A timer in memory ends. -/
lemma Inv.endOne (out : Output) (h : Inv s log items) (hperm : s.execList ~ t :: rest)
    (hresult : IsResult result) (hended : out.ended = some t.tId) (hnew : out.handedOut = none) :
    Inv { s with execList := rest, listFile := s.listFile ++ endLine t.tId result }
      (log ++ [out]) (items ++ [⟨t.tId, 0, result⟩]) := by
  have hpending := h.execList.symm.trans hperm
  have ht : t ∈ pending items := hpending.mem_iff.mpr List.mem_cons_self
  obtain ⟨hitem, -, hnone⟩ := mem_pending.mp ht
  have hrest : ∀ u ∈ rest, u.tId ≠ t.tId := by
    have := (hpending.map (·.tId)).nodup_iff.mp (nodup_pending h.keys)
    rw [List.map_cons, List.nodup_cons] at this
    intro u hu htid
    exact this.1 (List.mem_map.mpr ⟨u, hu, htid⟩)
  have hleft : pending (items ++ [⟨t.tId, 0, result⟩]) ~ rest := by
    rw [pending_concat_end rfl]
    refine (hpending.filter _).trans ?_
    rw [List.filter_cons_of_neg (by simp), List.filter_eq_self.mpr fun u hu => by simpa using hrest u hu]
  have hlog1 : (log ++ [out]).filterMap Output.handedOut = log.filterMap Output.handedOut := by
    simp [hnew]
  have hlog2 : (log ++ [out]).filterMap Output.ended = log.filterMap Output.ended ++ [t.tId] := by
    simp [hended]
  constructor
  · rw [linesOf_concat, h.listFile, endLine_eq t hresult.encode]
  · intro u hu
    rcases List.mem_append.mp hu with hu | hu
    · exact h.writable u hu
    · rw [List.mem_singleton.mp hu]
      exact writable_end (h.writable t hitem) hresult
  · rw [List.map_append, List.nodup_append]
    refine ⟨h.keys, by simp, ?_⟩
    rintro x hx y hy rfl
    obtain ⟨u, hu, rfl⟩ := List.mem_map.mp hx
    simp only [List.map_cons, List.map_nil, List.mem_singleton, key, Prod.mk.injEq, beq_self_eq_true,
      beq_iff_eq] at hy
    exact hnone u hu hy.2 hy.1
  · exact hleft.symm
  · exact h.lastTid
  · intro u hu
    rcases List.mem_append.mp hu with hu | hu
    · exact h.tId_le u hu
    · rw [List.mem_singleton.mp hu]
      exact h.tId_le t hitem
  · rw [hlog1]
    exact h.handedOut
  · rw [hlog1]
    exact h.handedOut_le
  · rw [hlog2, List.nodup_append]
    refine ⟨h.ended, by simp, ?_⟩
    rintro x hx y hy rfl
    rw [List.mem_singleton] at hy
    exact h.ended_ne x hx t ht hy.symm
  · rw [hlog2]
    intro tId htId
    rcases List.mem_append.mp htId with htId | htId
    · exact h.ended_le tId htId
    · rw [List.mem_singleton.mp htId]
      exact h.tId_le t hitem
  · rw [hlog2]
    intro tId htId u hu
    have hu' := hleft.mem_iff.mp hu
    rcases List.mem_append.mp htId with htId | htId
    · exact h.ended_ne tId htId u (hpending.mem_iff.mpr (List.mem_cons_of_mem t hu'))
    · rw [List.mem_singleton.mp htId]
      exact hrest u hu'

/-- The timers in a part of the list end one after the other. -/
lemma Inv.endAll {outcome : Timer → Outcome} (ex : List Timer) (h : Inv s log items)
    (hperm : s.execList ~ ex ++ rest) :
    ∃ items', Inv
      { s with
        execList := rest
        listFile := s.listFile ++ ex.flatMap fun t => endLine t.tId (outcome t).result }
      (log ++ ex.map .executed) items' := by
  induction ex generalizing s log items with
  | nil =>
    refine ⟨items, ?_⟩
    simp only [List.flatMap_nil, List.append_nil, List.map_nil]
    exact { h with execList := hperm.symm.trans h.execList }
  | cons t ex ih =>
    have hone := h.endOne (.executed t) hperm (isResult_outcome (outcome t)) rfl rfl
    obtain ⟨items', hall⟩ := ih hone (List.Perm.refl _)
    refine ⟨items', ?_⟩
    simpa using hall

lemma Inv.silent (outs : List Output) (h : Inv s log items) (h1 : outs.filterMap Output.handedOut = [])
    (h2 : outs.filterMap Output.ended = []) : Inv s (log ++ outs) items := by
  have hlog1 : (log ++ outs).filterMap Output.handedOut = log.filterMap Output.handedOut := by
    rw [List.filterMap_append, h1, List.append_nil]
  have hlog2 : (log ++ outs).filterMap Output.ended = log.filterMap Output.ended := by
    rw [List.filterMap_append, h2, List.append_nil]
  exact { h with
    handedOut := hlog1 ▸ h.handedOut
    handedOut_le := hlog1 ▸ h.handedOut_le
    ended := hlog2 ▸ h.ended
    ended_le := hlog2 ▸ h.ended_le
    ended_ne := hlog2 ▸ h.ended_ne }

lemma Inv.cancel (h : Inv s log items) (tId : ℤ) :
    ∃ items', Inv (s.cancel tId).1 (log ++ (s.cancel tId).2) items' := by
  unfold Service.cancel
  cases hfind : s.execList.find? (·.tId == tId) with
  | none => exact ⟨items, h.silent _ rfl rfl⟩
  | some t =>
    obtain ⟨htid, l₁, l₂, hl, hl₁⟩ := List.find?_eq_some_iff_append.mp hfind
    have hrest : s.execList.eraseP (·.tId == tId) = l₁ ++ l₂ := by
      rw [hl, List.eraseP_append_right _ fun u hu => by simpa using hl₁ u hu,
        List.eraseP_cons_of_pos (p := fun u : Timer => u.tId == tId) htid]
    have hperm : s.execList ~ t :: s.execList.eraseP (·.tId == tId) := by
      rw [hrest, hl]
      exact List.perm_middle
    have hone := (h.endOne (.cancelled t) hperm isResult_cancel rfl rfl).silent
      [.reply "TRUE\r\n"] rfl rfl
    exact ⟨_, by simpa using hone⟩

/-- The timer stands on a line that fits in the buffer and is read back, and its numbers are in
range. -/
structure Recordable (t : Timer) : Prop where
  tId_lt : t.tId < 2 ^ 31
  execTime_lt : t.execTime < 2 ^ 63
  command_ne : t.command ≠ []
  oneLine : t.command.all fun c => c != 10 && c != 13
  fits : (format t).length < 1024

lemma Inv.add {execInterval : ℤ} {command : List UInt8} {now : ℕ} (h : Inv s log items)
    (hpos : 0 < execInterval) (hlen : command.length < 512) (hnul : ∀ c ∈ command, c ≠ 0)
    (ht : Recordable ⟨s.lastTid + 1, execInterval + now, command⟩) :
    ∃ r, s.add execInterval command now = some r ∧ ∃ items', Inv r.1 (log ++ r.2) items' := by
  obtain ⟨htid, htime, hne, hline, hfits⟩ := ht
  have h0 := h.lastTid
  refine ⟨(⟨putTimer s.execList ⟨s.lastTid + 1, execInterval + now, command⟩, s.lastTid + 1,
    s.listFile ++ (format ⟨s.lastTid + 1, execInterval + now, command⟩ ++ [10])⟩,
    [.added ⟨s.lastTid + 1, execInterval + now, command⟩]), ?_,
    items ++ [⟨s.lastTid + 1, execInterval + now, command⟩], ?_⟩
  · unfold Service.add
    rw [if_pos ⟨htid, htime⟩, formatLine, if_pos hfits]
    rfl
  have hother : ∀ u ∈ items, u.tId ≠ s.lastTid + 1 := by
    intro u hu
    have := h.tId_le u hu
    omega
  have hnonzero : execInterval + now ≠ 0 := by omega
  have hpending := pending_concat_new
    (t := ⟨s.lastTid + 1, execInterval + now, command⟩) hnonzero hother
  have hended : (log ++ [Output.added ⟨s.lastTid + 1, execInterval + now, command⟩]).filterMap
      Output.ended = log.filterMap Output.ended := by
    simp [Output.ended]
  constructor
  · rw [linesOf_concat, h.listFile]
  · intro u hu
    rcases List.mem_append.mp hu with hu | hu
    · exact h.writable u hu
    · rw [List.mem_singleton.mp hu]
      exact ⟨by simp only; omega, htid, by simp only; omega, htime, hne, hlen,
        fun c hc => ⟨hnul c hc, by simpa using List.all_eq_true.mp hline c hc⟩, hfits⟩
  · rw [List.map_append, List.nodup_append]
    refine ⟨h.keys, by simp, ?_⟩
    rintro x hx y hy rfl
    obtain ⟨u, hu, rfl⟩ := List.mem_map.mp hx
    rw [List.map_cons, List.map_nil, List.mem_singleton, key, key, Prod.mk.injEq] at hy
    exact hother u hu hy.1
  · rw [hpending]
    refine (putTimer_perm _ _).trans ((h.execList.cons _).trans ?_)
    exact (List.perm_append_singleton _ _).symm
  · exact (by omega : 0 ≤ s.lastTid + 1)
  · intro u hu
    rcases List.mem_append.mp hu with hu | hu
    · have := h.tId_le u hu
      exact (by omega : u.tId ≤ s.lastTid + 1)
    · rw [List.mem_singleton.mp hu]
  · rw [List.filterMap_append, List.nodup_append]
    refine ⟨h.handedOut, by simp [Output.handedOut], ?_⟩
    rintro x hx y hy rfl
    have := h.handedOut_le x hx
    simp only [List.filterMap_cons, Output.handedOut, List.filterMap_nil, List.mem_singleton] at hy
    omega
  · intro tId htId
    rw [List.filterMap_append] at htId
    rcases List.mem_append.mp htId with htId | htId
    · have := h.handedOut_le tId htId
      exact (by omega : tId ≤ s.lastTid + 1)
    · simp only [List.filterMap_cons, Output.handedOut, List.filterMap_nil,
        List.mem_singleton] at htId
      exact htId.le
  · rw [hended]
    exact h.ended
  · intro tId htId
    rw [hended] at htId
    have := h.ended_le tId htId
    exact (by omega : tId ≤ s.lastTid + 1)
  · intro tId htId u hu
    rw [hended] at htId
    rw [hpending] at hu
    rcases List.mem_append.mp hu with hu | hu
    · exact h.ended_ne tId htId u hu
    · have := h.ended_le tId htId
      rw [List.mem_singleton.mp hu]
      exact (by omega : s.lastTid + 1 ≠ tId)

lemma Inv.listItems (h : Inv s log items) : listItems s.listFile = items := by
  rw [h.listFile]
  exact listItems_format h.writable

lemma mapM_formatLine {l : List Timer} (h : ∀ t ∈ l, Writable t) :
    l.mapM (formatLine 2048) = some (l.map fun t => format t ++ [10]) := by
  induction l with
  | nil => rfl
  | cons t l ih =>
    have hfits := (h t List.mem_cons_self).fits
    rw [List.mapM_cons, formatLine, if_pos (by omega), ih fun u hu => h u (List.mem_cons_of_mem _ hu)]
    rfl

lemma Inv.compact (h : Inv s log items) (opens : Bool) :
    ∃ s', s.compact opens = some s' ∧ ∃ items', Inv s' log items' := by
  unfold Service.compact
  cases opens with
  | false => exact ⟨s, rfl, items, h⟩
  | true =>
    have hmem : ∀ t ∈ pending items, t ∈ items := fun t ht => (mem_pending.mp ht).1
    have hwritable : ∀ t ∈ pending items, Writable t := fun t ht => h.writable t (hmem t ht)
    simp only [if_true, h.listItems, filter_settle h.keys, mapM_formatLine hwritable,
      Option.map_some]
    refine ⟨_, rfl, pending items, ?_⟩
    exact {
      listFile := List.flatMap_def.symm
      writable := hwritable
      keys := h.keys.sublist (List.filter_sublist.map _)
      execList := pending_pending.symm ▸ h.execList
      lastTid := h.lastTid
      tId_le := fun t ht => h.tId_le t (hmem t ht)
      handedOut := h.handedOut
      handedOut_le := h.handedOut_le
      ended := h.ended
      ended_le := h.ended_le
      ended_ne := pending_pending.symm ▸ h.ended_ne }

/-- What a restart would have in memory. -/
lemma Inv.rebuilt {allocates : ℕ → Bool} (h : Inv s log items) (hall : ∀ i, allocates i) :
    (restore allocates s.listFile).execList ~ pending items := by
  have := restore_execList hall (settle items) [] 0
  rw [List.nil_append, filter_settle h.keys] at this
  rw [restore, h.listItems]
  exact this

lemma Inv.restart {allocates : ℕ → Bool} (h : Inv s log items) (hall : ∀ i, allocates i)
    (hlast : s.lastTid = 0 ∨ ∃ t ∈ ListFile.listItems s.listFile, t.tId = s.lastTid) :
    Inv (restore allocates s.listFile) log items := by
  rw [h.listItems] at hlast
  have hsettle := settle_eq h.keys
  have htid : (restore allocates s.listFile).lastTid = s.lastTid := by
    rw [restore, h.listItems]
    refine foldl_lastTid h.lastTid ?_ ?_
    · intro t ht
      rw [hsettle] at ht
      obtain ⟨u, hu, rfl⟩ := List.mem_map.mp ht
      have := h.tId_le u hu
      split_ifs <;> exact this
    · rcases hlast with h0 | ⟨t, ht, he⟩
      · exact Or.inl h0.symm
      · refine Or.inr ⟨if isEnded items t then zero t else t, ?_, ?_⟩
        · rw [hsettle]
          exact List.mem_map.mpr ⟨t, ht, rfl⟩
        · split_ifs <;> exact he
  have hfile : (restore allocates s.listFile).listFile = s.listFile := rfl
  exact { h with
    listFile := hfile ▸ h.listFile
    execList := h.rebuilt hall
    lastTid := htid ▸ h.lastTid
    tId_le := htid ▸ h.tId_le
    handedOut_le := htid ▸ h.handedOut_le
    ended_le := htid ▸ h.ended_le }

/-! ### The Runs -/

/-- Each `ADD` that is accepted is recordable; and the service is started again while the list file
still has a line of the last identifier, and with memory for all its lines. -/
def Fits (s : Service) : Event → Prop
  | .line line now allocates =>
    let ptr := (cstr line).drop 4
    let execInterval := atoi (ptr.takeWhile (· != 32))
    let pspace := (ptr.dropWhile (· != 32)).tail
    casePrefix (bytes "ADD ") (cstr line) → 32 ∈ ptr → 0 < execInterval → pspace.length < 512 →
      allocates → Recordable ⟨s.lastTid + 1, execInterval + now, pspace⟩
  | .restart allocates => (∀ i, allocates i) ∧
    (s.lastTid = 0 ∨ ∃ t ∈ listItems s.listFile, t.tId = s.lastTid)
  | .tick _ _ | .compact _ => True

lemma Inv.command {line : List UInt8} {now : ℕ} {allocates : Bool} (h : Inv s log items)
    (hfit : Fits s (.line line now allocates)) :
    ∃ r, s.command line now allocates = some r ∧ ∃ items', Inv r.1 (log ++ r.2) items' := by
  unfold Service.command
  simp only
  split_ifs with hcancel htid hadd hspace hchecks hmem
  · exact ⟨_, rfl, items, h.silent _ rfl rfl⟩
  · exact ⟨_, rfl, h.cancel _⟩
  · exact ⟨_, rfl, items, h.silent _ rfl rfl⟩
  · rw [not_or] at hchecks
    have hnul : ∀ c ∈ (((cstr line).drop 4).dropWhile (· != 32)).tail, c ≠ 0 := by
      intro c hc
      have hmem : c ∈ cstr line :=
        List.mem_of_mem_drop ((List.dropWhile_sublist _).mem (List.mem_of_mem_tail hc))
      simpa using List.mem_takeWhile_imp hmem
    exact h.add (by omega) (by omega) hnul (hfit hadd hspace (by omega) (by omega) hmem)
  · exact ⟨_, rfl, items, h.silent _ rfl rfl⟩
  · exact ⟨_, rfl, items, h.silent _ rfl rfl⟩
  · exact ⟨_, rfl, items, h.silent _ rfl rfl⟩
  · exact ⟨_, rfl, items, h.silent _ rfl rfl⟩
  · exact ⟨_, rfl, items, h.silent _ rfl rfl⟩

/-- The step lemma: an event that meets the condition is defined and keeps the invariant. -/
lemma Inv.step {e : Event} (h : Inv s log items) (hfit : Fits s e) :
    ∃ r, s.step e = some r ∧ ∃ items', Inv r.1 (log ++ r.2) items' := by
  cases e with
  | line line now allocates => exact h.command hfit
  | tick now outcome => exact ⟨_, rfl, h.endAll _ (executeDue_perm now s.execList)⟩
  | compact opens =>
    obtain ⟨s', hs', items', h'⟩ := h.compact opens
    refine ⟨(s', []), ?_, items', h'.silent _ rfl rfl⟩
    rw [Service.step, hs']
    rfl
  | restart allocates =>
    exact ⟨_, rfl, items, (h.restart hfit.1 hfit.2).silent _ rfl rfl⟩

/-- The service with an empty list file. -/
def Service.start : Service := ⟨[], 0, []⟩

/-- A run of the service, in which the outputs are kept. -/
abbrev Runs (admits : Service → Event → Prop) (s : Service × List Output) (events : List Event)
    (t : Service × List Output) : Prop :=
  Run (fun s e => admits s.1 e)
    (fun s e t => ∃ outs, s.1.step e = some (t.1, outs) ∧ t.2 = s.2 ++ outs) s events t

/-- The timers that a restart would find are those in memory, none has been executed or cancelled
twice, or both, and no identifier has been handed out twice. -/
def Kept (s : Service) (log : List Output) : Prop :=
  (restore (fun _ => true) s.listFile).execList ~ s.execList ∧
  (log.filterMap Output.ended).Nodup ∧ (log.filterMap Output.handedOut).Nodup

lemma inv_start : Inv .start [] [] := by
  constructor <;> simp [Service.start, linesOf, pending]

/-- **The timers are kept** in every run whose events meet the condition, and no such event writes
beyond the line buffer. -/
theorem kept_of_run (events : List Event)
    (h : Runs Fits (.start, []) events (s, log)) :
    Kept s log ∧ ∀ e, Fits s e → (s.step e).isSome := by
  have hinv : ∃ items, Inv s log items := by
    refine Run.invariant (I := fun s => ∃ items, Inv s.1 s.2 items) ?_ h ⟨[], inv_start⟩
    rintro ⟨s, log⟩ e ⟨s', log'⟩ ⟨items, h⟩ hfit ⟨outs, hst, hlog⟩
    obtain ⟨r, hr, h'⟩ := h.step hfit
    simp only at hst hlog hr
    rw [hr] at hst
    obtain rfl := Option.some.inj hst
    rw [hlog]
    exact h'
  obtain ⟨items, hinv⟩ := hinv
  refine ⟨⟨(hinv.rebuilt fun _ => rfl).trans hinv.execList.symm, hinv.ended, hinv.handedOut⟩, ?_⟩
  intro e hfit
  obtain ⟨r, hr, -⟩ := hinv.step hfit
  rw [hr]
  rfl

lemma runs_cons {admits : Service → Event → Prop} {e : Event} {events : List Event}
    {x : Service × List Output} (hfit : admits s e) (hst : s.step e = some (s', outs))
    (h : Runs admits (s', log ++ outs) events x) : Runs admits (s, log) (e :: events) x :=
  .cons hfit ⟨outs, hst, rfl⟩ h

/-- Two timers are added, the first one is cancelled, and the service is started again. -/
theorem kept_of_run_restart :
    Kept ⟨[⟨2, 107, bytes "b"⟩], 2, bytes "1\t105\ta\\ \\#\n2\t107\tb\n1\t0\tCANCEL\n"⟩
      [.added ⟨1, 105, bytes "a #"⟩, .added ⟨2, 107, bytes "b"⟩, .cancelled ⟨1, 105, bytes "a #"⟩,
        .reply "TRUE\r\n"] := by
  refine (kept_of_run [.line (bytes "ADD 5 a #") 100 true, .line (bytes "add 7 b") 100 true,
    .line (bytes "CANCEL 1") 101 true, .restart fun _ => true] ?_).1
  refine runs_cons ?_ rfl (runs_cons ?_ rfl (runs_cons ?_ rfl (runs_cons ?_ rfl (.nil _))))
  · intro _ _ _ _ _
    exact ⟨by decide, by decide, by decide, by decide, by decide⟩
  · intro _ _ _ _ _
    exact ⟨by decide, by decide, by decide, by decide, by decide⟩
  · intro hadd
    exact absurd hadd (by decide)
  · exact ⟨fun _ => rfl, Or.inr ⟨⟨2, 107, bytes "b"⟩, by decide, rfl⟩⟩

/-- A timer without a command is accepted, and its line is not read back. -/
theorem not_kept_of_run : ¬ ∀ (events : List Event) (s : Service) (log : List Output),
    Runs (fun _ _ => True) (.start, []) events (s, log) → Kept s log := by
  intro h
  have hkept := h [.line (bytes "ADD 5 ") 100 true] _ _ (runs_cons trivial rfl (.nil _))
  have hperm := hkept.1.length_eq
  exact absurd hperm (by decide)

end SteepSystem.Daemons.Timer
