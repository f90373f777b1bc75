import SteepSystem.Containers.Run
import SteepSystem.Messages.Values

/-!
Message trees that are copied and measured. A copy is put together by calls of the containers, so
that of a list it holds what these calls leave.
-/

namespace SteepSystem.Messages

open ExtBuffer Lib.Growable
open Containers (Copy Container setPropval tpropvalArrayAppend)

variable {α : Type} {c : Container} {a : Arr α} {done : List α}

lemma contents_eq (h : c.Keeps a done) : contents a = .ok done := by
  rw [contents, h.holds.elems_eq]

/-- An append below the most elements of a container goes right. -/
lemma append_below (h : c.Keeps a done) (hlt : a.count < c.most) (x : α) :
    ∃ a', c.kind.append true a (some x) = some (true, a') ∧ c.Keeps a' (done ++ [x]) := by
  unfold Containers.Kind.append
  obtain ⟨hguard, -, ⟨hnew, hsame⟩ | ⟨size, hnew, hsize⟩⟩ := c.grow_of_lt hlt
  · rw [hguard, hnew]
    exact c.put_spec h.holds hlt (hsame.trans_le h.room) x
  · rw [hguard, hnew]
    have hle : a.count ≤ c.kind.rounded (a.count + 1) :=
      (Nat.lt_of_succ_lt (c.lt_rounded _)).le
    simp only [Bool.false_eq_true, if_false, if_true, hsize]
    exact c.put_spec (h.holds.regrow hle) hlt (by rw [Arr.length_regrow]; exact le_rfl) x

section Lists

variable {dup : α → Dup α} {l zs : List α}

lemma eachDup_cons_iff {x : α} {ys : List α} :
    eachDup dup (x :: l) = .ok ys ↔
      ∃ y l', dup x = .ok y ∧ eachDup dup l = .ok l' ∧ ys = y :: l' := by
  rw [eachDup]
  cases dup x with
  | error => simp [bind, Except.bind]
  | ok y =>
    cases eachDup dup l with
    | error => simp [bind, Except.bind]
    | ok l' => simp [bind, Except.bind, pure, Except.pure, eq_comm]

/-- Copies appended one after another, up to the most that are not refused. -/
lemma appendLoop_iff (hfull : c.kind.refuses c.most = true) (h : c.Keeps a done) :
    (appendLoop c dup l a >>= contents) = .ok zs ↔
      ∃ ys, eachDup dup l = .ok ys ∧ done.length + l.length ≤ c.most ∧ zs = done ++ ys := by
  induction l generalizing a done with
  | nil =>
    have hle : done.length ≤ c.most := h.holds.count_eq ▸ h.most
    simp [appendLoop, eachDup, bind, Except.bind, contents_eq h, hle, eq_comm]
  | cons x l ih =>
    rw [appendLoop]
    cases hx : dup x with
    | error =>
      simp [bind, Except.bind, eachDup_cons_iff, hx]
    | ok y =>
      rcases h.most.lt_or_eq with hlt | heq
      · obtain ⟨a', happend, hkeeps⟩ := append_below h hlt y
        have hstep : (do
            let a ← answered (c.kind.append true a (some y))
            appendLoop c dup l a) = appendLoop c dup l a' := by
          rw [happend]
          rfl
        change ((do
            let a ← answered (c.kind.append true a (some y))
            appendLoop c dup l a) >>= contents) = _ ↔ _
        rw [hstep, ih hkeeps]
        simp only [eachDup_cons_iff, hx, List.length_append, List.length_cons, List.length_nil]
        constructor
        · rintro ⟨ys, hys, hle, rfl⟩
          exact ⟨y :: ys, ⟨y, ys, rfl, hys, rfl⟩, by omega, by simp⟩
        · rintro ⟨ys, ⟨y', ys', hy, hys', rfl⟩, hle, rfl⟩
          obtain rfl := Except.ok.inj hy
          exact ⟨ys', hys', by omega, by simp⟩
      · -- the container is full
        have hrefused : c.kind.append true a (some y) = some (false, a) := by
          rw [Containers.Kind.append, heq, hfull, if_pos rfl]
        have hcount := h.holds.count_eq
        simp only [bind, Except.bind, hrefused, answered, reduceCtorEq, false_iff]
        rintro ⟨ys, -, hle, -⟩
        simp only [List.length_cons] at hle
        omega

lemma sound_appendLoop {size : α → Option UInt32} (hfull : c.kind.refuses c.most = true) :
    Sound (appendLoop c dup l (Arr.empty c.kind.unit) >>= contents) (eachSize size l) l ↔
      l.length ≤ c.most ∧ Sound (eachDup dup l) (eachSize size l) l := by
  rw [Sound, Sound, appendLoop_iff hfull c.keeps_empty]
  simp only [List.length_nil, zero_add, List.nil_append]
  constructor
  · rintro ⟨⟨ys, hys, hle, rfl⟩, hs⟩
    exact ⟨hle, hys, hs⟩
  · rintro ⟨hle, hl, hs⟩
    exact ⟨⟨l, hl, hle, rfl⟩, hs⟩

end Lists

/-! Property lists. A tag that stands in the copy already is overwritten, if it may stand once. -/

section Propvals

variable (once : Bool) {arr : Arr TaggedPropval} {kept : List TaggedPropval}
  {r y : TaggedPropval} {l zs : List TaggedPropval}

/-- The call appends the value. -/
def Fresh (once : Bool) (kept : List TaggedPropval) (r : TaggedPropval) : Prop :=
  once = true → proptag r ∉ kept.map proptag

lemma proptag_of_dup (h : taggedPropvalDup r = .ok y) : proptag y = proptag r := by
  obtain ⟨tag, v⟩ := r
  rw [taggedPropvalDup] at h
  cases hv : propvalDup tag.toUInt16 v with
  | error => simp [hv, Functor.map, Except.map] at h
  | ok w =>
    rw [hv] at h
    rw [← Except.ok.inj h]
    rfl

/-- A value that has been copied is appended, or it takes the place of another one. -/
lemma putPropval_made (h : Container.tpropvalArray.Keeps arr kept) (hlt : kept.length < 65535) :
    ∃ arr' kept', putPropval once .made arr r = some (true, arr') ∧
      Container.tpropvalArray.Keeps arr' kept' ∧
      (Fresh once kept r → kept' = kept ++ [r]) ∧
      (¬ Fresh once kept r → kept'.length = kept.length) := by
  have hbelow : arr.count < Container.tpropvalArray.most := h.holds.count_eq ▸ hlt
  obtain ⟨arr', happend, hkeeps⟩ := append_below h hbelow r
  cases once with
  | false => exact ⟨arr', _, happend, hkeeps, fun _ => rfl, fun hn => absurd nofun hn⟩
  | true =>
    simp only [putPropval, if_true, setPropval, h.holds.elems_eq, Option.bind_eq_bind,
      Option.bind_some]
    cases hfind : kept.findIdx? (proptag · = proptag r) with
    | none =>
      have hfresh : Fresh true kept r := by
        have := List.findIdx?_eq_none_iff.mp hfind
        simpa [Fresh] using this
      exact ⟨arr', _, happend, hkeeps, fun _ => rfl, fun hn => absurd hfresh hn⟩
    | some i =>
      have hi : i < kept.length := (List.findIdx?_eq_some_iff_findIdx_eq.1 hfind).1
      have hstale : ¬ Fresh true kept r := by
        have hany : (kept.findIdx? (proptag · = proptag r)).isSome = true := by rw [hfind]; rfl
        rw [List.findIdx?_isSome] at hany
        simpa [Fresh] using hany
      obtain ⟨hwrite, hold⟩ := h.holds.set hi r
      refine ⟨_, kept.set i r, by simp only [hwrite]; rfl, ⟨hold, by simpa using h.room, h.most⟩,
        fun hn => absurd hn hstale, fun _ => List.length_set⟩

lemma putPropval_failed (h : Container.tpropvalArray.Keeps arr kept) :
    ∃ arr', putPropval once .failed arr r = some (false, arr') := by
  have happend : ∃ arr', tpropvalArrayAppend true .failed arr r = some (false, arr') := by
    obtain ⟨ok, arr', heq, -⟩ :=
      Containers.tpropvalArrayAppend_spec true .failed h r nofun
    obtain rfl := Containers.tpropvalArrayAppend_failed h heq rfl
    exact ⟨arr', heq⟩
  cases once with
  | false => exact happend
  | true =>
    simp only [putPropval, if_true, setPropval, h.holds.elems_eq, Option.bind_eq_bind,
      Option.bind_some]
    cases kept.findIdx? (proptag · = proptag r) with
    | none => exact happend
    | some i => exact ⟨arr, rfl⟩

lemma putPropval_null (h : Container.tpropvalArray.Keeps arr kept) :
    ∃ ok, putPropval once .null arr r = some (ok, arr) := by
  cases once with
  | false => exact ⟨true, rfl⟩
  | true =>
    simp only [putPropval, if_true, setPropval, h.holds.elems_eq, Option.bind_eq_bind,
      Option.bind_some]
    cases kept.findIdx? (proptag · = proptag r) with
    | none => exact ⟨true, rfl⟩
    | some i => exact ⟨false, rfl⟩

lemma valueCopy_of_ok (h : taggedPropvalDup r = .ok y) : valueCopy r = .ok (.made, y) := by
  unfold valueCopy
  split
  · simp [taggedPropvalDup, propvalDup, Functor.map, Except.map] at h
  · rw [h]

lemma valueCopy_of_error {f : Fault} (h : taggedPropvalDup r = .error f) :
    valueCopy r = .ok (.null, r) ∨ valueCopy r = .ok (.failed, r) ∨ valueCopy r = .error f := by
  unfold valueCopy
  split
  · exact Or.inl rfl
  · rw [h]
    cases f
    · exact Or.inr (Or.inl rfl)
    · exact Or.inr (Or.inr rfl)
    · exact Or.inr (Or.inr rfl)

/-- What a value does to the copy: it is appended, or no element is added, or there is no copy. -/
lemma propvalsLoop_cons (h : Container.tpropvalArray.Keeps arr kept) (hlt : kept.length < 65535) :
    (∃ y arr', taggedPropvalDup r = .ok y ∧ Fresh once kept r ∧
        propvalsLoop once (r :: l) arr = propvalsLoop once l arr' ∧
        Container.tpropvalArray.Keeps arr' (kept ++ [y])) ∨
      ((∀ y, taggedPropvalDup r = .ok y → ¬ Fresh once kept r) ∧
        ((∃ arr' kept', propvalsLoop once (r :: l) arr = propvalsLoop once l arr' ∧
            Container.tpropvalArray.Keeps arr' kept' ∧ kept'.length = kept.length) ∨
          ∃ f, propvalsLoop once (r :: l) arr = .error f)) := by
  rw [propvalsLoop]
  cases hr : taggedPropvalDup r with
  | ok y =>
    have htag := proptag_of_dup hr
    obtain ⟨arr', kept', hput, hkeeps, hfresh, hstale⟩ := putPropval_made once (r := y) h hlt
    have hiff : Fresh once kept y ↔ Fresh once kept r := by rw [Fresh, Fresh, htag]
    rw [valueCopy_of_ok hr]
    by_cases hf : Fresh once kept r
    · refine Or.inl ⟨y, arr', rfl, hf, ?_, hfresh (hiff.mpr hf) ▸ hkeeps⟩
      simp only [bind, Except.bind, hput, answered]
    · refine Or.inr ⟨fun _ _ => hf, Or.inl ⟨arr', kept', ?_, hkeeps, hstale (mt hiff.mp hf)⟩⟩
      simp only [bind, Except.bind, hput, answered]
  | error f =>
    refine Or.inr ⟨nofun, ?_⟩
    rcases valueCopy_of_error hr with hnull | hfailed | herror
    · obtain ⟨ok, hput⟩ := putPropval_null once (r := r) h
      rw [hnull]
      simp only [bind, Except.bind, hput]
      cases ok
      · exact Or.inr ⟨.null, rfl⟩
      · exact Or.inl ⟨arr, kept, rfl, h, rfl⟩
    · obtain ⟨arr', hput⟩ := putPropval_failed once (r := r) h
      rw [hfailed]
      simp only [bind, Except.bind, hput]
      exact Or.inr ⟨.null, rfl⟩
    · rw [herror]
      exact Or.inr ⟨f, rfl⟩

/-- No copy has more values than the original. -/
lemma propvalsLoop_length (h : Container.tpropvalArray.Keeps arr kept)
    (hle : kept.length + l.length ≤ 65535)
    (hzs : (propvalsLoop once l arr >>= contents) = .ok zs) :
    zs.length ≤ kept.length + l.length := by
  induction l generalizing arr kept with
  | nil =>
    have hcontents : contents arr = .ok zs := hzs
    rw [contents_eq h] at hcontents
    rw [← Except.ok.inj hcontents]
    exact Nat.le_add_right _ _
  | cons r l ih =>
    rw [List.length_cons] at hle ⊢
    obtain ⟨y, arr', -, -, hloop, hkeeps⟩ | ⟨-, ⟨arr', kept', hloop, hkeeps, hlen⟩ | ⟨f, hloop⟩⟩ :=
      propvalsLoop_cons once (r := r) (l := l) h (by omega)
    · rw [hloop] at hzs
      have := ih hkeeps (by rw [List.length_append, List.length_singleton]; omega) hzs
      rw [List.length_append, List.length_singleton] at this
      omega
    · rw [hloop] at hzs
      have := ih hkeeps (by omega) hzs
      omega
    · rw [hloop] at hzs
      cases hzs

/-- A copy has all the values exactly if each is copied and none has the tag of another one. -/
lemma propvalsLoop_iff (h : Container.tpropvalArray.Keeps arr kept)
    (hle : kept.length + l.length ≤ 65535) (hzs : zs.length = kept.length + l.length)
    (hkept : once = true → (kept.map proptag).Nodup) :
    (propvalsLoop once l arr >>= contents) = .ok zs ↔
      ∃ ys, eachDup taggedPropvalDup l = .ok ys ∧ zs = kept ++ ys ∧
        (once = true → (kept.map proptag ++ l.map proptag).Nodup) := by
  induction l generalizing arr kept with
  | nil =>
    have hcontents : (propvalsLoop once [] arr >>= contents) = .ok kept := contents_eq h
    rw [hcontents]
    constructor
    · intro heq
      exact ⟨[], rfl, by rw [← Except.ok.inj heq, List.append_nil], by simpa using hkept⟩
    · rintro ⟨ys, hys, rfl, -⟩
      rw [← Except.ok.inj hys, List.append_nil]
  | cons r l ih =>
    rw [List.length_cons] at hle hzs
    obtain ⟨y, arr', hy, hfresh, hloop, hkeeps⟩ | ⟨hnot, hrest⟩ :=
      propvalsLoop_cons once (r := r) (l := l) h (by omega)
    · have htags : (kept ++ [y]).map proptag ++ l.map proptag =
          kept.map proptag ++ (r :: l).map proptag := by
        simp [proptag_of_dup hy]
      have hnodup : once = true → ((kept ++ [y]).map proptag).Nodup := by
        intro honce
        rw [List.map_append, List.map_singleton, proptag_of_dup hy]
        exact List.nodup_append'.mpr ⟨hkept honce, List.nodup_singleton _, by
          simpa using hfresh honce⟩
      rw [hloop, ih hkeeps (by rw [List.length_append, List.length_singleton]; omega)
        (by rw [List.length_append, List.length_singleton]; omega) hnodup, htags]
      constructor
      · rintro ⟨ys, hys, rfl, hdistinct⟩
        exact ⟨y :: ys, eachDup_cons_iff.mpr ⟨y, ys, hy, hys, rfl⟩, by simp, hdistinct⟩
      · rintro ⟨ys, hys, rfl, hdistinct⟩
        obtain ⟨y', ys', hy', hys', rfl⟩ := eachDup_cons_iff.mp hys
        obtain rfl := Except.ok.inj (hy.symm.trans hy')
        exact ⟨ys', hys', by simp, hdistinct⟩
    · -- an element is missing from the copy
      refine iff_of_false (fun hok => ?_) ?_
      · rcases hrest with ⟨arr', kept', hloop, hkeeps, hlen⟩ | ⟨f, hloop⟩
        · rw [hloop] at hok
          have := propvalsLoop_length once hkeeps (by omega) hok
          omega
        · rw [hloop] at hok
          cases hok
      · rintro ⟨ys, hys, -, hdistinct⟩
        obtain ⟨y, -, hy, -⟩ := eachDup_cons_iff.mp hys
        refine hnot y hy fun honce hmem => ?_
        have := List.disjoint_of_nodup_append (hdistinct honce)
        exact this hmem (by simp)

end Propvals

/-- A list that its copy is equal to. -/
def ProplistCopies (once : Bool) (l : TpropvalArray) : Prop :=
  l.length < 2 ^ 16 ∧ (once = true → (l.map proptag).Nodup) ∧ ∀ r ∈ l, TaggedCopies r

lemma sound_proplistDup (once : Bool) (l : TpropvalArray) :
    Sound (proplistDup once l) (proplistSize l) l ↔ ProplistCopies once l := by
  have hvalues : Sound (eachDup taggedPropvalDup l) (proplistSize l) l ↔
      ∀ r ∈ l, TaggedCopies r := by
    rw [proplistSize, sound_eachDup]
    exact forall₂_congr fun r _ => tagged_sound r
  rw [proplistDup, sound_counted, ProplistCopies, ← hvalues]
  refine and_congr_right fun hlen => ?_
  rw [Sound, Sound, propvalsLoop_iff once Container.tpropvalArray.keeps_empty (by simp; omega)
    (by simp) (by simp)]
  simp only [List.map_nil, List.nil_append]
  constructor
  · rintro ⟨⟨ys, hys, rfl, hdistinct⟩, hs⟩
    exact ⟨hdistinct, hys, hs⟩
  · rintro ⟨hdistinct, hl, hs⟩
    exact ⟨⟨l, hl, rfl, hdistinct⟩, hs⟩

def TarraySetCopies (l : TarraySet) : Prop := l.length ≤ 0xFF00 ∧ ∀ r ∈ l, ProplistCopies false r

lemma sound_tarraySetDup (l : TarraySet) :
    Sound (tarraySetDup l) (eachSize proplistSize l) l ↔ TarraySetCopies l := by
  rw [tarraySetDup, sound_appendLoop (by decide), sound_eachDup, TarraySetCopies]
  simp only [sound_proplistDup]
  rfl

/-! Messages and what is attached to them. -/

mutual

def MessageCopies : MessageContent → Prop
  | .mk proplist prcpts pattachments =>
    ProplistCopies true proplist ∧ (∀ r ∈ prcpts, TarraySetCopies r) ∧
      AttachmentListCopies pattachments

def AttachmentListCopies : Option (List AttachmentContent) → Prop
  | some pplist => pplist.length ≤ 0x8000 ∧ AttachmentsCopy pplist
  | none => True

def AttachmentsCopy : List AttachmentContent → Prop
  | [] => True
  | r :: l => AttachmentCopies r ∧ AttachmentsCopy l

def AttachmentCopies : AttachmentContent → Prop
  | .mk proplist pembedded => ProplistCopies true proplist ∧ EmbeddedCopies pembedded

def EmbeddedCopies : Option MessageContent → Prop
  | some r => MessageCopies r
  | none => True

end

lemma attachmentsLoop_eq (l : List AttachmentContent) (arr : Arr AttachmentContent) :
    attachmentsLoop l arr = appendLoop .attachmentList attachmentContentDup l arr := by
  induction l generalizing arr with
  | nil => rw [attachmentsLoop, appendLoop]
  | cons r l ih => simp only [attachmentsLoop, appendLoop, ih]

lemma attachmentsSize_eq (l : List AttachmentContent) :
    attachmentsSize l = eachSize attachmentContentSize l := by
  induction l with
  | nil => rw [attachmentsSize, eachSize]
  | cons r l ih => rw [attachmentsSize, eachSize, ih]

mutual

lemma message_sound : ∀ m : MessageContent,
    Sound (messageContentDup m) (messageContentGetSize m) m ↔ MessageCopies m
  | .mk proplist prcpts pattachments => by
    rw [messageContentDup, messageContentGetSize, sound_three (by simp), sound_proplistDup,
      sound_presentDup, attachmentList_sound pattachments, MessageCopies]
    simp only [sound_tarraySetDup]

lemma attachmentList_sound : ∀ r : Option (List AttachmentContent),
    Sound (attachmentListDup r) (attachmentListSize r) r ↔ AttachmentListCopies r
  | some pplist => by
    rw [attachmentListDup, attachmentListSize, sound_map (by simp), attachmentsLoop_eq,
      attachmentsSize_eq, sound_appendLoop (by decide), attachments_sound pplist,
      AttachmentListCopies]
    rfl
  | none => by simp [attachmentListDup, attachmentListSize, AttachmentListCopies]

lemma attachments_sound : ∀ l : List AttachmentContent,
    Sound (eachDup attachmentContentDup l) (eachSize attachmentContentSize l) l ↔ AttachmentsCopy l
  | [] => by simp [AttachmentsCopy]
  | r :: l => by
    rw [eachDup, eachSize, sound_two (by simp), attachment_sound r, attachments_sound l,
      AttachmentsCopy]

lemma attachment_sound : ∀ r : AttachmentContent,
    Sound (attachmentContentDup r) (attachmentContentSize r) r ↔ AttachmentCopies r
  | .mk proplist pembedded => by
    rw [attachmentContentDup, attachmentContentSize, sound_two (by simp), sound_proplistDup,
      embedded_sound pembedded, AttachmentCopies]

lemma embedded_sound : ∀ r : Option MessageContent,
    Sound (embeddedDup r) (embeddedSize r) r ↔ EmbeddedCopies r
  | some r => by
    rw [embeddedDup, embeddedSize, sound_map (by simp), message_sound r, EmbeddedCopies]
  | none => by simp [embeddedDup, embeddedSize, EmbeddedCopies]

end

/-- No access leaves its block, the copy is equal to the message, and so is its size. -/
def Duplicated (m : MessageContent) : Prop :=
  ∃ copy n, messageContentDup m = .ok copy ∧ copy = m ∧ messageContentGetSize m = some n ∧
    messageContentGetSize copy = some n

theorem messageContentDup_iff (m : MessageContent) : Duplicated m ↔ MessageCopies m := by
  rw [← message_sound m, Sound, Duplicated]
  constructor
  · rintro ⟨copy, n, hdup, rfl, hsize, -⟩
    exact ⟨hdup, by rw [hsize]; rfl⟩
  · rintro ⟨hdup, hsize⟩
    obtain ⟨n, hn⟩ := Option.isSome_iff_exists.mp hsize
    exact ⟨m, n, hdup, rfl, hn, hn⟩

/-- A message with one property of type `PROPVAL_TYPE_GUID_ARRAY`, of one element. -/
def guidMessage : MessageContent :=
  .mk [.mk 0x80001048 (.guidArray [⟨0, 0, 0, ⟨[0, 0], rfl⟩, ⟨[0, 0, 0, 0, 0, 0], rfl⟩⟩])] none none

/-- 16 bytes are copied into a block of four. -/
theorem messageContentDup_guidArray :
    messageContentDup guidMessage = .error .outside ∧ ¬ ∀ m, Duplicated m := by
  have hdup : messageContentDup guidMessage = .error .outside := rfl
  refine ⟨hdup, fun h => ?_⟩
  obtain ⟨copy, n, hok, -⟩ := h guidMessage
  cases hdup.symm.trans hok

/-- An attachment with a message embedded in it that has a recipient. -/
example : messageContentDup
    (.mk [.mk 0x0037001f (.string (.of [0x41]))] none
      (some [.mk [] (some (.mk [] (some [[.mk 0x0c150003 (.long 1)]]) none))])) =
    .ok (.mk [.mk 0x0037001f (.string (.of [0x41]))] none
      (some [.mk [] (some (.mk [] (some [[.mk 0x0c150003 (.long 1)]]) none))])) := rfl

end SteepSystem.Messages
