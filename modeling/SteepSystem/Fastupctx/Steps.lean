import SteepSystem.Fastupctx.Lists
import SteepSystem.Fastupctx.Nesting

/-!
What one event does to a coherent upload: first the folder or the list that is pending, then
the marker, one lemma for each.
-/

namespace SteepSystem.Fastupctx

open SteepSystem.Lib.Bytes FastupctxObject

variable {pctx : FastupctxObject} {ans : Answers}

/-! ### What is pending -/

/-- A pending subfolder can be made: the marker next to its own has a folder id, and its
properties fit the count. -/
def PendingFits (pctx : FastupctxObject) : Prop :=
  ∀ l, pctx.lastMarker = some .startSubFld → pctx.pproplist = some l → l ≠ [] →
    pctx.markerStack.tail.head?.map (·.marker) ≠ some .startTopFld ∧ Room l

lemma settle_settled (h : Settled pctx) : settle ans pctx = some (true, pctx, []) := by
  unfold settle
  cases h with
  | folder _ hstack hl _ =>
    cases hs : pctx.markerStack with
    | nil => simp [flushRoot, hl]
    | cons n stack =>
      rw [hs] at hstack
      cases hstack with
      | top _ => simp [flushRoot, hl]
      | sub _ _ => simp [hl]
  | element _ hstack _ _ _ =>
    cases hs : pctx.markerStack with
    | nil =>
      rw [hs] at hstack
      cases hstack
    | cons n stack =>
      rw [hs] at hstack
      cases hstack with
      | message hmarker _ _ => rcases hmarker with rfl | rfl <;> simp
      | recipient _ => simp
      | attachment _ => simp
      | embedded _ => simp
  | instances hstack _ _ =>
    cases hs : pctx.markerStack with
    | nil =>
      have hroot := hstack.byInstance
      rcases hroot with hroot | hroot <;> simp [hroot]
    | cons n stack =>
      rw [hs] at hstack
      cases hstack with
      | new _ => simp
      | embedded _ => simp
  | recipient hs _ _ _ => simp [hs]

/-- What the switch on the last marker leaves for the one on the marker. -/
structure SettledFrom (pctx : FastupctxObject) (o : Outcome) : Prop where
  keeps : Keeps pctx o
  settled : o.1 = true → Settled o.2.1
  last : o.2.1.lastMarker = pctx.lastMarker
  content : o.2.1.pmsgctnt = pctx.pmsgctnt
  stack : pctx.lastMarker ≠ some .startSubFld → o.2.1.markerStack = pctx.markerStack

lemma AtTop.byInstance (h : AtTop pctx.rootElement pctx.markerStack) : pctx.byInstance = false := by
  rcases h with ⟨hroot, -⟩ | ⟨hroot, -⟩ <;> simp [FastupctxObject.byInstance, hroot]

lemma AtTop.folders (h : AtTop pctx.rootElement pctx.markerStack) :
    Folders pctx.rootElement pctx.markerStack := by
  rcases h with ⟨-, hstack⟩ | ⟨hroot, hstack⟩
  · rw [hstack]
    exact .root
  · rw [hstack]
    exact .top hroot

lemma AtTop.settle (h : AtTop pctx.rootElement pctx.markerStack) :
    settle ans pctx = some (flushRoot ans pctx) := by
  unfold Fastupctx.settle
  rcases h with ⟨hroot, hstack⟩ | ⟨-, hstack⟩
  · simp [hroot, hstack]
  · simp [hstack]

lemma settledFrom_top {l : TpropvalArray} (h : AtTop pctx.rootElement pctx.markerStack)
    (hl : pctx.pproplist = some l) (hm : pctx.pmsgctnt = none) :
    SettledFrom pctx (flushRoot ans pctx) := by
  have hflushed : Settled { pctx with pproplist := none } := .folder h.byInstance h.folders rfl hm
  unfold flushRoot
  rw [hl]
  by_cases hcount : l.length > 0
  · by_cases hset : ans.setProps
    · simp only [hcount, hset, if_true]
      exact ⟨⟨.settled hflushed, rfl, rfl, by simp [Placed]⟩, fun _ => hflushed, rfl, rfl,
        fun _ => rfl⟩
    · simp only [hcount, hset, if_true]
      exact ⟨⟨.top h hl hm, rfl, rfl, by simp [Placed]⟩, fun hb => (Bool.noConfusion hb), rfl, rfl,
        fun _ => rfl⟩
  · simp only [hcount, if_false]
    exact ⟨⟨.settled hflushed, rfl, rfl, by simp⟩, fun _ => hflushed, rfl, rfl, fun _ => rfl⟩

lemma createFolder_calls (ans : SaveAnswers) {parentId : ℕ} {l : TpropvalArray} (hroom : Room l)
    (hparent : parentId = nearestFolder pctx.pobject pctx.markerStack) :
    ∀ c ∈ (fastupctxObjectCreateFolder ans parentId l).2.2, Placed pctx c := by
  intro c hc
  subst hparent
  unfold fastupctxObjectCreateFolder at hc
  rcases hres : folderProplist ans (nearestFolder pctx.pobject pctx.markerStack) l with ⟨b, l'⟩
  rw [hres] at hc
  cases b with
  | false => simp at hc
  | true =>
    have hlist : Placed pctx (.createFolder l') := folderProplist_parent hres hroom
    simp only [Bool.true_eq_false, if_false] at hc
    split at hc
    · rw [List.mem_singleton.mp hc]
      exact hlist
    · rw [List.mem_singleton.mp hc]
      exact hlist
    · rcases List.mem_cons.mp hc with rfl | hc
      · exact hlist
      · simp only [Option.mem_toList, Option.map_eq_some_iff] at hc
        obtain ⟨_, -, rfl⟩ := hc
        trivial

/-- **The switch on the last marker.** It has a defined effect, and what it makes goes below the
nearest folder. -/
theorem settle_spec (ans : Answers) (h : Coherent pctx) (hfits : PendingFits pctx) :
    ∃ o, settle ans pctx = some o ∧ SettledFrom pctx o := by
  cases h with
  | settled h =>
    exact ⟨_, settle_settled h, ⟨.settled h, rfl, rfl, by simp⟩, fun _ => h, rfl, rfl, fun _ => rfl⟩
  | top h hl hm => exact ⟨_, h.settle, settledFrom_top h hl hm⟩
  | @subfolder stack l hstack hsub hfolders hl hm =>
    have hcoherent : Coherent pctx := .subfolder hstack hsub hfolders hl hm
    have hlast : pctx.lastMarker = some .startSubFld := by simp [lastMarker, hstack]
    have hbyInstance : pctx.byInstance = false := by
      rcases hsub with hroot | hroot <;> simp [FastupctxObject.byInstance, hroot]
    unfold settle
    simp only [hstack, hl, if_true]
    by_cases hempty : l.length = 0
    · rw [if_pos hempty]
      exact ⟨_, rfl, keeps_refused hcoherent, fun hb => Bool.noConfusion hb, rfl, rfl, fun _ => rfl⟩
    · rw [if_neg hempty]
      obtain ⟨htop, hroom⟩ := hfits l hlast hl (fun hnil => hempty (by simp [hnil]))
      have hparent := hfolders.pendingParent (by simpa [hstack] using htop)
      have hnear : nearestFolder pctx.pobject stack =
          nearestFolder pctx.pobject pctx.markerStack := by
        rw [hstack]
        rfl
      have hplaced := createFolder_calls ans.pending hroom hnear
      rw [hparent, Option.map_some]
      refine ⟨_, rfl, ?_⟩
      rcases hres : fastupctxObjectCreateFolder ans.pending (nearestFolder pctx.pobject stack) l
        with ⟨id, l', calls⟩
      rw [hres] at hplaced
      cases id with
      | none =>
        exact ⟨⟨.subfolder rfl hsub hfolders rfl hm, rfl, rfl, hplaced⟩,
          fun hb => Bool.noConfusion hb, hlast.symm, rfl, fun _ => hstack.symm⟩
      | some folderId =>
        have hmade : Settled { pctx with
            pproplist := none
            markerStack := ⟨.startSubFld, .folderId folderId⟩ :: stack } :=
          .folder hbyInstance (.sub hsub hfolders) rfl hm
        exact ⟨⟨.settled hmade, rfl, rfl, hplaced⟩, fun _ => hmade, hlast.symm, rfl,
          fun hne => absurd hlast hne⟩

/-! ### The marker -/

/-- The message is written: a change number, its key and a predecessor list are made, the
copies of the three succeed, and the store takes the message. -/
def Saves (ans : SaveAnswers) : Prop :=
  ans.written = true ∧ 3 ≤ ans.mem ∧ ∃ changeNum pbin, ans.changeNum = some changeNum ∧
    ans.changeKey changeNum = some pbin ∧ ∀ old, (ans.pclAppend old pbin).isSome

/-- A marker that keeps clear of the branches named below. -/
def MarkerFits (pctx : FastupctxObject) (ans : Answers) : Marker → Prop
  | .startTopFld => pctx.rootElement = .topFolder → pctx.lastMarker = none → ans.mem ≠ 1
  | .startSubFld => pctx.rootElement.HasSubfolders → ans.mem = 0 ∨
      (ans.mem ≠ 1 ∧ (pctx.lastMarker = none ∨ pctx.lastMarker = some .startTopFld ∨
        pctx.lastMarker = some .startSubFld))
  | .startMessage | .startFaiMsg =>
    takesMessage pctx = true → pctx.pmsgctnt = none → ans.mem = 0 ∨ 6 ≤ ans.mem
  | .endMessage =>
    pctx.lastMarker = some .startMessage ∨ pctx.lastMarker = some .startFaiMsg → Saves ans.save
  | .startRecip => takesChild pctx = true → pctx.byInstance = true → ans.mem ≠ 1
  | .startEmbed => pctx.lastMarker = some .newAttach → pctx.byInstance = false → ans.mem ≠ 1
  | _ => True

lemma Elements.last {root : RootElement} {e : Element} {stack : List MarkerNode}
    (h : Elements root e stack) : ∃ n rest, stack = n :: rest ∧ n.element? = some e ∧
      n.marker ≠ .startTopFld ∧ n.marker ≠ .startSubFld := by
  cases h with
  | message hmarker _ _ => rcases hmarker with rfl | rfl <;> exact ⟨_, _, rfl, rfl, by simp, by simp⟩
  | recipient _ => exact ⟨_, _, rfl, rfl, by simp, by simp⟩
  | attachment _ => exact ⟨_, _, rfl, rfl, by simp, by simp⟩
  | embedded _ => exact ⟨_, _, rfl, rfl, by simp, by simp⟩

lemma Settled.last_folder (h : Settled pctx)
    (hlast : pctx.lastMarker = none ∨ pctx.lastMarker = some .startTopFld ∨
      pctx.lastMarker = some .startSubFld)
    (hroot : pctx.byInstance = false) :
    Folders pctx.rootElement pctx.markerStack ∧ pctx.pproplist = none ∧ pctx.pmsgctnt = none := by
  cases h with
  | folder _ hstack hl hm => exact ⟨hstack, hl, hm⟩
  | element _ hstack _ _ _ =>
    obtain ⟨n, rest, hs, -, htop, hsub⟩ := hstack.last
    simp [lastMarker, hs, htop, hsub] at hlast
  | instances hstack _ _ =>
    rcases hstack.byInstance with h | h <;> simp [FastupctxObject.byInstance, h] at hroot
  | recipient _ hstack _ _ =>
    rcases hstack.byInstance with h | h <;> simp [FastupctxObject.byInstance, h] at hroot

/-- The marker's effect is defined, and keeps the upload coherent. -/
def Enters (pctx : FastupctxObject) (r : Option Outcome) : Prop :=
  ∃ o, r = some o ∧ Keeps pctx o

lemma enters_refused (h : Settled pctx) : Enters pctx pctx.refuse :=
  ⟨_, rfl, keeps_refused (.settled h)⟩

lemma startTopFld_spec (h : Settled pctx) (hfits : MarkerFits pctx ans .startTopFld) :
    Enters pctx (startTopFld ans pctx) := by
  unfold startTopFld
  by_cases hroot : pctx.rootElement ≠ .topFolder ∨ pctx.lastMarker ≠ none
  · rw [if_pos hroot]
    exact enters_refused h
  · rw [if_neg hroot]
    push Not at hroot
    obtain ⟨hroot, hlast⟩ := hroot
    have hstack : pctx.markerStack = [] := by simpa [lastMarker] using hlast
    obtain ⟨-, hl, hm⟩ := h.last_folder (.inl hlast) (by simp [byInstance, hroot])
    have hmem := hfits hroot hlast
    unfold openFolder
    simp only [hl, Option.isSome_none, Bool.false_eq_true, if_false]
    split_ifs with hnone
    · exact enters_refused h
    · refine ⟨_, rfl, .top (.inr ⟨hroot, ?_⟩) rfl hm, rfl, rfl, by simp⟩
      simp [push, hstack]

lemma startSubFld_spec (h : Settled pctx) (hfits : MarkerFits pctx ans .startSubFld) :
    Enters pctx (startSubFld ans pctx) := by
  unfold startSubFld
  by_cases hroot : pctx.rootElement ≠ .topFolder ∧ pctx.rootElement ≠ .folderContent
  · rw [if_pos hroot]
    exact enters_refused h
  · rw [if_neg hroot]
    have hsub : pctx.rootElement.HasSubfolders := by
      unfold RootElement.HasSubfolders
      tauto
    have hfolder : pctx.byInstance = false := by
      rcases hsub with h | h <;> simp [byInstance, h]
    unfold openFolder
    rcases hfits hsub with hmem | ⟨hmem, hlast⟩
    · split_ifs
      · exact enters_refused h
      · exact enters_refused h
    · obtain ⟨hstack, hl, hm⟩ := h.last_folder hlast hfolder
      simp only [hl, Option.isSome_none, Bool.false_eq_true, if_false, if_neg hmem]
      split_ifs with hnone
      · exact enters_refused h
      · exact ⟨_, rfl, .subfolder rfl hsub hstack rfl hm, rfl, rfl, by simp⟩

lemma endFolder_spec (h : Settled pctx) : Enters pctx (endFolder pctx) := by
  unfold endFolder
  by_cases hlast : pctx.lastMarker ≠ some .startTopFld ∧ pctx.lastMarker ≠ some .startSubFld
  · rw [if_pos hlast]
    exact enters_refused h
  · rw [if_neg hlast]
    refine ⟨_, rfl, ?_, rfl, rfl, by simp⟩
    cases h with
    | folder hroot hstack hl hm =>
      refine .settled (.folder hroot ?_ hl hm)
      show Folders pctx.rootElement pctx.markerStack.tail
      cases hs : pctx.markerStack with
      | nil => simp [lastMarker, hs] at hlast
      | cons n stack =>
        rw [hs] at hstack
        cases hstack with
        | top _ => exact .root
        | sub _ hbelow => exact hbelow
    | element _ hstack _ _ _ =>
      obtain ⟨n, rest, hs, -, htop, hsub⟩ := hstack.last
      simp [lastMarker, hs, htop, hsub] at hlast
    | instances hstack _ _ =>
      cases hs : pctx.markerStack with
      | nil => simp [lastMarker, hs] at hlast
      | cons n stack =>
        rw [hs] at hstack
        cases hstack <;> simp [lastMarker, hs] at hlast
    | recipient hs _ _ _ => simp [lastMarker, hs] at hlast

lemma startMessage_spec {marker : Marker} (h : Settled pctx)
    (hmarker : marker = .startMessage ∨ marker = .startFaiMsg)
    (hfits : takesMessage pctx = true → pctx.pmsgctnt = none → ans.mem = 0 ∨ 6 ≤ ans.mem) :
    Enters pctx (startMessage ans pctx marker) := by
  unfold startMessage
  by_cases htakes : takesMessage pctx = true
  · rw [if_neg (by simp [htakes])]
    by_cases hm : pctx.pmsgctnt.isSome
    · rw [if_pos hm]
      exact enters_refused h
    · rw [if_neg hm]
      have hm : pctx.pmsgctnt = none := by simpa using hm
      rcases hfits htakes hm with hmem | hmem
      · rw [if_pos hmem]
        exact enters_refused h
      · rw [if_neg (by omega), if_neg (by omega), if_neg (by omega), if_neg (by omega)]
        have hfolder : pctx.byInstance = false := by
          unfold takesMessage at htakes
          split at htakes <;> simp_all [byInstance]
        cases h with
        | folder _ hstack hl _ =>
          refine ⟨_, rfl, .settled (.element hfolder (.message hmarker hstack ?_) hl rfl rfl), rfl,
            rfl, by simp⟩
          -- Below `STARTTOPFLD` a message needs a folder marker before it.
          intro (hroot : pctx.rootElement = .topFolder) (hnil : pctx.markerStack = [])
          simp [takesMessage, hroot, lastMarker, hnil] at htakes
        | element _ _ _ hsome _ => simp [hm] at hsome
        | instances hstack _ _ =>
          rcases hstack.byInstance with h | h <;> simp [byInstance, h] at hfolder
        | recipient _ hstack _ _ =>
          rcases hstack.byInstance with h | h <;> simp [byInstance, h] at hfolder
  · rw [if_pos (by simpa using htakes)]
    exact enters_refused h

lemma writeMessage_true {ans : SaveAnswers} (h : Saves ans) (folderId : ℕ) (m : MessageContent) :
    (fastupctxObjectWriteMessage ans folderId m).1 = true := by
  obtain ⟨hwritten, hmem, changeNum, pbin, hnum, hkey, hpcl⟩ := h
  have hset : ∀ (l : TpropvalArray) p k, k < 3 → (setPropval l p (decide (k < ans.mem))).1 = true := by
    intro l p k hk
    have : k < ans.mem := by omega
    simp only [setPropval, this, decide_true, Bool.true_eq_false, if_false]
    split_ifs <;> rfl
  have hstamp : ∀ l, (stampChange ans 0 l).1 = true := by
    intro l
    unfold stampChange
    simp only [hnum, hkey, andThen, hset _ _ 0 (by omega), hset _ _ (0 + 1) (by omega), if_true]
    split
    · rename_i hnone
      have := hpcl (getPropval (setPropval (setPropval l ⟨propTagChangeNumber, le 8 changeNum⟩
        (decide (0 < ans.mem))).2 ⟨propTagChangeKey, pbin⟩ (decide (0 + 1 < ans.mem))).2
        propTagPredecessorChangeList)
      rw [hnone] at this
      cases this
    · exact hset _ _ (0 + 2) (by omega)
  unfold fastupctxObjectWriteMessage
  simp only [hstamp, Bool.true_eq_false, if_false]
  exact hwritten

lemma writeMessage_calls {ans : SaveAnswers} {folderId : ℕ} {m : MessageContent} {c : StoreCall}
    (h : c ∈ (fastupctxObjectWriteMessage ans folderId m).2.2)
    (hfolder : folderId = nearestFolder pctx.pobject pctx.markerStack) : Placed pctx c := by
  unfold fastupctxObjectWriteMessage at h
  simp only at h
  split_ifs at h
  · cases h
  · rw [List.mem_singleton.mp h]
    exact hfolder

lemma endMessage_spec (h : Settled pctx) (hfits : MarkerFits pctx ans .endMessage) :
    Enters pctx (endMessage ans pctx) := by
  unfold endMessage
  cases hs : pctx.markerStack with
  | nil => exact enters_refused h
  | cons n stack =>
    by_cases hn : n.marker ≠ .startMessage ∧ n.marker ≠ .startFaiMsg
    · simp only [if_pos hn]
      exact enters_refused h
    · simp only [if_neg hn]
      have hlast : pctx.lastMarker = some n.marker := by simp [lastMarker, hs]
      have hn' : n.marker = .startMessage ∨ n.marker = .startFaiMsg := by tauto
      have hsaves := hfits (by rcases hn' with h | h <;> simp [hlast, h])
      cases h with
      | folder _ hstack _ _ =>
        rw [hs] at hstack
        cases hstack <;> simp at hn'
      | element hroot hstack hl hm _ =>
        rw [hs] at hstack
        cases hstack with
        | message hmarker hfolders _ =>
          rw [hm]
          simp only [MarkerNode.element?, ne_eq, not_true_eq_false, if_false]
          have hpop : pctx.pop.markerStack = stack := by simp [pop, hs]
          have hnear : fastupctxObjectGetLastFolder pctx.pop =
              some (nearestFolder pctx.pobject stack) := by
            unfold fastupctxObjectGetLastFolder
            rw [hpop]
            exact hfolders.nearest
          rw [hnear, Option.map_some]
          refine ⟨_, rfl, .settled (.folder hroot ?_ hl ?_), rfl, rfl, fun c hc => ?_⟩
          · show Folders pctx.rootElement pctx.pop.markerStack
            rw [hpop]
            exact hfolders
          · simp [writeMessage_true hsaves]
          · refine writeMessage_calls hc ?_
            rw [hs]
            rcases hmarker with rfl | rfl <;> rfl
        | recipient _ => simp at hn'
        | attachment _ => simp at hn'
        | embedded _ => simp at hn'
      | instances hstack _ _ =>
        rw [hs] at hstack
        cases hstack <;> simp at hn'
      | recipient hs' _ _ _ =>
        rw [hs] at hs'
        cases hs'
        simp at hn'

/-- What a recipient or an attachment comes under: a message under construction, or an instance
of a message. -/
lemma Settled.child (h : Settled pctx) (htakes : takesChild pctx = true) :
    (pctx.byInstance = false ∧ pctx.pproplist = none ∧ ∃ path m x,
      Elements pctx.rootElement (.message path) pctx.markerStack ∧ pctx.pmsgctnt = some m ∧
      m.message? path = some x) ∨
    (pctx.byInstance = true ∧ pctx.pproplist = none ∧ pctx.pmsgctnt = none ∧ ∃ id,
      Instances pctx.rootElement pctx.pobject (.message id) pctx.markerStack) := by
  cases h with
  | folder hroot hstack _ _ =>
    have hlast : pctx.lastMarker = none ∨ pctx.lastMarker = some .startTopFld ∨
        pctx.lastMarker = some .startSubFld := by
      unfold lastMarker
      generalize pctx.markerStack = stack at hstack ⊢
      cases hstack <;> simp
    unfold takesChild at htakes
    split at htakes <;> rcases hlast with hlast | hlast | hlast <;> simp_all [byInstance]
  | @element e m hroot hstack hl hm he =>
    left
    refine ⟨hroot, hl, ?_⟩
    cases hs : pctx.markerStack with
    | nil =>
      rw [hs] at hstack
      cases hstack
    | cons n stack =>
      have hlast : pctx.lastMarker = some n.marker := by simp [lastMarker, hs]
      rw [hs] at hstack
      cases hstack with
      | message hmarker hfolders htop =>
        obtain ⟨x, hx⟩ := MessageContent.message_of_proplist he
        exact ⟨_, m, x, .message hmarker hfolders htop, hm, hx⟩
      | recipient _ =>
        unfold takesChild at htakes
        split at htakes <;> simp [hlast] at htakes
      | attachment _ =>
        unfold takesChild at htakes
        split at htakes <;> simp [hlast] at htakes
      | embedded hbelow =>
        obtain ⟨x, hx⟩ := MessageContent.message_of_proplist he
        exact ⟨_, m, x, .embedded hbelow, hm, hx⟩
  | @instances i hstack hl hm =>
    right
    have hroot := hstack.byInstance
    refine ⟨by simpa [byInstance] using hroot, hl, hm, ?_⟩
    cases i with
    | message id => exact ⟨id, hstack⟩
    | attachment id =>
      unfold takesChild at htakes
      generalize hs : pctx.markerStack = stack at hstack
      cases hstack with
      | attachment h => simp [h, lastMarker, hs] at htakes
      | new _ => rcases hroot with h | h <;> simp [h, lastMarker, hs] at htakes
  | recipient hs hstack _ _ =>
    have hroot := hstack.byInstance
    unfold takesChild at htakes
    rcases hroot with h | h <;> simp [h, lastMarker, hs] at htakes

lemma lastMessage_eq {path : List ℕ} {m x : MessageContent}
    (h : Elements pctx.rootElement (.message path) pctx.markerStack)
    (hm : pctx.pmsgctnt = some m) (hx : m.message? path = some x) :
    lastMessage pctx = some (m, path, x) := by
  obtain ⟨n, rest, hs, he, -, -⟩ := h.last
  simp [lastMessage, hs, he, hm, hx]

lemma startRecip_spec (h : Settled pctx) (hfits : MarkerFits pctx ans .startRecip) :
    Enters pctx (startRecip ans pctx) := by
  unfold startRecip
  by_cases htakes : takesChild pctx = true
  · rw [if_neg (by simp [htakes])]
    rcases h.child htakes with
      ⟨hroot, hl, path, m, x, hstack, hm, hx⟩ | ⟨hroot, hl, hm, id, hstack⟩
    · rw [if_neg (by simp [hroot])]
      by_cases hmem : ans.mem = 0
      · rw [if_pos hmem]
        exact enters_refused h
      · rw [if_neg hmem, lastMessage_eq hstack hm hx, Option.bind_some]
        simp only
        split_ifs with hfull hnode
        · exact enters_refused h
        · refine ⟨_, rfl, .settled (.element hroot hstack hl rfl ?_), rfl, rfl, by simp⟩
          simp [MessageContent.proplist?, MessageContent.message?_put hx]
        · refine ⟨_, rfl, .settled (.element hroot (.recipient hstack) hl rfl ?_), rfl, rfl, by simp⟩
          simp [MessageContent.proplist?, MessageContent.message?_put hx]
    · rw [if_pos hroot, hl]
      have hmem := hfits htakes hroot
      simp only [Option.isSome_none, Bool.false_eq_true, if_false, if_neg hmem]
      split_ifs with hnone
      · exact enters_refused h
      · have hlast : fastupctxObjectGetLastMessageInstance { pctx with pproplist := some [] } =
            some id := hstack.lastMessage
        rw [hlast, Option.map_some]
        exact ⟨_, rfl, .settled (.recipient rfl hstack rfl hm), rfl, rfl, by simp⟩
  · rw [if_pos (by simpa using htakes)]
    exact enters_refused h

lemma newAttach_spec (h : Settled pctx) : Enters pctx (newAttach ans pctx) := by
  unfold newAttach
  by_cases htakes : takesChild pctx = true
  · rw [if_neg (by simp [htakes])]
    rcases h.child htakes with
      ⟨hroot, hl, path, m, x, hstack, hm, hx⟩ | ⟨hroot, hl, hm, id, hstack⟩
    · rw [if_neg (by simp [hroot])]
      by_cases hmem : ans.mem = 0
      · rw [if_pos hmem]
        exact enters_refused h
      · rw [if_neg hmem, lastMessage_eq hstack hm hx, Option.bind_some]
        simp only
        split_ifs with hfull hnode
        · exact enters_refused h
        · refine ⟨_, rfl, .settled (.element hroot hstack hl rfl ?_), rfl, rfl, by simp⟩
          simp [MessageContent.proplist?, MessageContent.message?_put hx]
        · refine ⟨_, rfl, .settled (.element hroot (.attachment hstack) hl rfl ?_), rfl, rfl, by simp⟩
          simp [MessageContent.proplist?, MessageContent.message?_put hx]
    · have hlast : fastupctxObjectGetLastMessageInstance pctx = some id := hstack.lastMessage
      rw [if_pos hroot, hlast, Option.map_some]
      simp only
      split_ifs
      · exact ⟨_, rfl, .settled h, rfl, rfl, by simp [Placed]⟩
      · exact ⟨_, rfl, .settled (.instances (.new hstack) hl hm), rfl, rfl, by simp [Placed]⟩
  · rw [if_pos (by simpa using htakes)]
    exact enters_refused h

lemma endToRecip_spec (h : Settled pctx) : Enters pctx (endToRecip ans pctx) := by
  unfold endToRecip
  by_cases hlast : pctx.lastMarker ≠ some .startRecip
  · rw [if_pos hlast]
    exact enters_refused h
  · rw [if_neg hlast]
    push Not at hlast
    cases hs : pctx.markerStack with
    | nil => simp [lastMarker, hs] at hlast
    | cons n stack =>
      have hn : n.marker = .startRecip := by simpa [lastMarker, hs] using hlast
      cases h with
      | folder _ hstack _ _ =>
        rw [hs] at hstack
        cases hstack <;> simp at hn
      | element hroot hstack hl hm he =>
        rw [hs] at hstack
        rw [if_neg (by simp [hroot])]
        cases hstack with
        | message hmarker _ _ => rcases hmarker with rfl | rfl <;> simp at hn
        | recipient hbelow =>
          refine ⟨_, rfl, .settled (.element hroot ?_ hl hm
            (MessageContent.proplist_of_recipient he)), rfl, rfl, by simp⟩
          show Elements _ _ pctx.markerStack.tail
          rw [hs]
          exact hbelow
        | attachment _ => simp at hn
        | embedded _ => simp at hn
      | instances hstack _ _ =>
        rw [hs] at hstack
        cases hstack <;> simp at hn
      | @recipient stack' id l hs' hstack hl hm =>
        have hroot : pctx.byInstance = true := by
          simpa [byInstance] using hstack.byInstance
        have hcoherent : Coherent pctx := .settled (.recipient hs' hstack hl hm)
        rw [hs] at hs'
        cases hs'
        rw [if_pos hroot, hl]
        simp only [List.head?_cons, Option.bind_some, MarkerNode.instanceId?]
        split_ifs
        · exact ⟨_, rfl, hcoherent, rfl, rfl, by simp [Placed]⟩
        · refine ⟨_, rfl, .settled (.instances (i := .message id) ?_ rfl hm), rfl, rfl,
            by simp [Placed]⟩
          show Instances _ _ _ pctx.markerStack.tail
          rw [hs]
          exact hstack

/-- The end of an attachment or of an embedded message uncovers what it was opened in. -/
lemma endInstance_spec (h : Settled pctx) {marker : Marker}
    (hmarker : marker = .newAttach ∨ marker = .startEmbed) :
    Enters pctx (endInstance ans pctx marker) := by
  unfold endInstance
  by_cases hlast : pctx.lastMarker ≠ some marker
  · rw [if_pos hlast]
    exact enters_refused h
  · rw [if_neg hlast]
    push Not at hlast
    cases hs : pctx.markerStack with
    | nil => simp [lastMarker, hs] at hlast
    | cons n stack =>
      have hn : n.marker = marker := by simpa [lastMarker, hs] using hlast
      have hn' : n.marker = .newAttach ∨ n.marker = .startEmbed := by rw [hn]; exact hmarker
      have hpop : pctx.pop.markerStack = stack := by simp [pop, hs]
      cases h with
      | folder _ hstack _ _ =>
        rw [hs] at hstack
        cases hstack <;> simp at hn'
      | element hroot hstack hl hm he =>
        rw [hs] at hstack
        rw [if_neg (by simp [hroot])]
        cases hstack with
        | message hmarker' _ _ => rcases hmarker' with rfl | rfl <;> simp at hn'
        | recipient _ => simp at hn'
        | attachment hbelow =>
          exact ⟨_, rfl, .settled (.element hroot (hpop ▸ hbelow) hl hm
            (MessageContent.proplist_of_attachment he)), rfl, rfl, by simp⟩
        | embedded hbelow =>
          exact ⟨_, rfl, .settled (.element hroot (hpop ▸ hbelow) hl hm
            (MessageContent.proplist_of_embedded he)), rfl, rfl, by simp⟩
      | @instances i hstack hl hm =>
        have hroot : pctx.byInstance = true := by
          simpa [byInstance] using hstack.byInstance
        have hcoherent : Coherent pctx := .settled (.instances hstack hl hm)
        rw [if_pos hroot]
        rw [hs] at hstack
        obtain ⟨id, hid, below, hbelow⟩ : ∃ id, n.instanceId? = some id ∧
            ∃ i, Instances pctx.rootElement pctx.pobject i stack := by
          cases hstack with
          | new hbelow => exact ⟨_, rfl, _, hbelow⟩
          | embedded hbelow => exact ⟨_, rfl, _, hbelow⟩
        simp only [List.head?_cons, Option.bind_some, hid, Option.map_some]
        split_ifs
        · exact ⟨_, rfl, hcoherent, rfl, rfl, by simp [Placed]⟩
        · exact ⟨_, rfl, hcoherent, rfl, rfl, by simp [Placed]⟩
        · exact ⟨_, rfl, .settled (.instances (hpop ▸ hbelow) hl hm), rfl, rfl, by simp [Placed]⟩
      | recipient hs' _ _ _ =>
        rw [hs] at hs'
        cases hs'
        simp at hn'

/-- What an embedded message comes under: an attachment of the message under construction, or
an instance of one. -/
lemma Settled.attachment (h : Settled pctx) (hlast : pctx.lastMarker = some .newAttach ∨
      (pctx.rootElement = .attachmentContent ∧ pctx.lastMarker = none)) :
    (pctx.byInstance = false ∧ pctx.lastMarker = some .newAttach ∧ pctx.pproplist = none ∧
      ∃ path i m x a, Elements pctx.rootElement (.attachment path i) pctx.markerStack ∧
        pctx.pmsgctnt = some m ∧ m.message? path = some x ∧ x.pattachments[i]? = some a) ∨
    (pctx.byInstance = true ∧ pctx.pproplist = none ∧ pctx.pmsgctnt = none ∧ ∃ id,
      Instances pctx.rootElement pctx.pobject (.attachment id) pctx.markerStack) := by
  cases h with
  | folder hroot hstack _ _ =>
    unfold lastMarker at hlast
    generalize pctx.markerStack = stack at hstack hlast
    cases hstack <;> simp_all [byInstance]
  | @element e m hroot hstack hl hm he =>
    left
    obtain ⟨n, rest, hs, -, -, -⟩ := hstack.last
    have hn : pctx.lastMarker = some n.marker := by simp [lastMarker, hs]
    have hnew : n.marker = .newAttach := by
      rcases hlast with h | ⟨-, h⟩
      · simpa [hn] using h
      · simp [hn] at h
    refine ⟨hroot, by rw [hn, hnew], hl, ?_⟩
    rw [hs] at hstack ⊢
    cases hstack with
    | message hmarker _ _ => rcases hmarker with rfl | rfl <;> simp at hnew
    | recipient _ => simp at hnew
    | @attachment _ path i hbelow =>
      obtain ⟨x, hx⟩ := MessageContent.message_of_proplist (MessageContent.proplist_of_attachment he)
      obtain ⟨a, ha⟩ : ∃ a, x.pattachments[i]? = some a := by
        simpa [MessageContent.proplist?, hx, Option.isSome_iff_exists] using he
      exact ⟨path, i, m, x, a, .attachment hbelow, hm, hx, ha⟩
    | embedded _ => simp at hnew
  | @instances i hstack hl hm =>
    right
    refine ⟨by simpa [byInstance] using hstack.byInstance, hl, hm, ?_⟩
    cases i with
    | attachment id => exact ⟨id, hstack⟩
    | message id =>
      unfold lastMarker at hlast
      generalize pctx.markerStack = stack at hstack hlast
      cases hstack with
      | message h => simp [h] at hlast
      | embedded _ => simp at hlast
  | recipient hs _ _ _ => simp [lastMarker, hs] at hlast

lemma startEmbed_spec (h : Settled pctx) (hfits : MarkerFits pctx ans .startEmbed) :
    Enters pctx (startEmbed ans pctx) := by
  unfold startEmbed
  by_cases hlast : pctx.lastMarker ≠ some .newAttach ∧
      ¬ (pctx.rootElement = .attachmentContent ∧ pctx.lastMarker = none)
  · rw [if_pos hlast]
    exact enters_refused h
  · rw [if_neg hlast]
    rcases h.attachment (by tauto) with
      ⟨hroot, hnew, hl, path, i, m, x, a, hstack, hm, hx, ha⟩ | ⟨hroot, hl, hm, id, hstack⟩
    · rw [if_neg (by simp [hroot])]
      have hmem := hfits hnew hroot
      obtain ⟨n, rest, hs, he, -, -⟩ := hstack.last
      by_cases hnone : ans.mem = 0
      · rw [if_pos hnone]
        exact enters_refused h
      rw [if_neg hnone, if_neg hmem]
      by_cases hfew : ans.mem < 4
      · rw [if_pos hfew]
        exact enters_refused h
      rw [if_neg hfew]
      have hlt : i < x.pattachments.length := (List.getElem?_eq_some_iff.mp ha).1
      simp only [hs, List.head?_cons, Option.bind_some, he, hm, hx, ha]
      rw [hs] at hstack
      split_ifs with hnode
      · refine ⟨_, rfl, .settled (.element hroot hstack hl rfl ?_), rfl, rfl, by simp⟩
        simp [MessageContent.proplist?, MessageContent.message?_put hx, hlt]
      · refine ⟨_, rfl, .settled (.element hroot (.embedded hstack) hl rfl ?_), rfl, rfl, by simp⟩
        simp [MessageContent.proplist?, MessageContent.message?_append,
          MessageContent.message?_put hx, MessageContent.message?, hlt]
    · have hlast : fastupctxObjectGetLastAttachmentInstance pctx = some id := hstack.lastAttachment
      have hcalls : ∀ c ∈ (loadEmbedded ans id).2, Placed pctx c := by
        intro c hc
        unfold loadEmbedded at hc
        split_ifs at hc <;> simp at hc <;> rcases hc with rfl | rfl <;> trivial
      rw [if_pos hroot, hlast, Option.map_some]
      rcases hload : loadEmbedded ans id with ⟨made, calls⟩
      rw [hload] at hcalls
      cases made with
      | none => exact ⟨_, rfl, .settled h, rfl, rfl, hcalls⟩
      | some new =>
        simp only
        split_ifs
        · exact ⟨_, rfl, .settled h, rfl, rfl, hcalls⟩
        · exact ⟨_, rfl, .settled (.instances (.embedded hstack) hl hm), rfl, rfl, hcalls⟩

/-- **The switch on the marker**, one lemma for each case. -/
theorem enter_spec (h : Settled pctx) {marker : Marker} (hfits : MarkerFits pctx ans marker) :
    Enters pctx (enter ans pctx marker) := by
  cases marker with
  | startTopFld => exact startTopFld_spec h hfits
  | startSubFld => exact startSubFld_spec h hfits
  | endFolder => exact endFolder_spec h
  | startMessage => exact startMessage_spec h (.inl rfl) hfits
  | startFaiMsg => exact startMessage_spec h (.inr rfl) hfits
  | endMessage => exact endMessage_spec h hfits
  | startRecip => exact startRecip_spec h hfits
  | endToRecip => exact endToRecip_spec h
  | newAttach => exact newAttach_spec h
  | endAttach => exact endInstance_spec h (.inl rfl)
  | startEmbed => exact startEmbed_spec h hfits
  | endEmbed => exact endInstance_spec h (.inr rfl)
  | fxErrorInfo => exact enters_refused h
  | other _ => exact enters_refused h

end SteepSystem.Fastupctx
