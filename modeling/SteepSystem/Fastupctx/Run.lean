import SteepSystem.Lib.Runs
import SteepSystem.Fastupctx.Steps

/-!
Runs of events on an upload. In a run whose events fit, the markers nest, the list and the
message belong to the innermost element, and what is made goes below the nearest folder.
-/

namespace SteepSystem.Fastupctx

open SteepSystem.Lib.Runs FastupctxObject

variable {pctx : FastupctxObject} {ans : Answers}

/-! ### Markers -/

lemma markerFits_congr {p q : FastupctxObject} (hroot : p.rootElement = q.rootElement)
    (hlast : p.lastMarker = q.lastMarker) (hm : p.pmsgctnt = q.pmsgctnt) {marker : Marker}
    (h : MarkerFits q ans marker) : MarkerFits p ans marker := by
  have htakes : takesMessage p = takesMessage q := by simp [takesMessage, hroot, hlast]
  have hchild : takesChild p = takesChild q := by simp [takesChild, hroot, hlast]
  have hinst : p.byInstance = q.byInstance := by simp [byInstance, hroot]
  cases marker <;> simp only [MarkerFits, hroot, hlast, hm, htakes, hchild, hinst] at h ⊢ <;> exact h

/-- Just after a subfolder's marker no marker makes a call of its own. -/
lemma enter_calls (hlast : pctx.lastMarker = some .startSubFld) {marker : Marker} {o : Outcome}
    (h : enter ans pctx marker = some o) : o.2.2 = [] := by
  have hchild : takesChild pctx = false := by
    unfold takesChild
    split <;> simp [hlast]
  obtain ⟨n, stack, hs, hn⟩ : ∃ n stack, pctx.markerStack = n :: stack ∧
      n.marker = .startSubFld := by
    unfold lastMarker at hlast
    cases hs : pctx.markerStack with
    | nil => simp [hs] at hlast
    | cons n stack => exact ⟨n, stack, rfl, by simpa [hs] using hlast⟩
  have hopen : ∀ marker, openFolder ans pctx marker = some o → o.2.2 = [] := by
    intro marker h
    unfold openFolder at h
    simp only [refuse] at h
    split_ifs at h <;> obtain rfl := Option.some.inj h <;> rfl
  have hmessage : ∀ marker, startMessage ans pctx marker = some o → o.2.2 = [] := by
    intro marker h
    unfold startMessage at h
    simp only [refuse] at h
    split_ifs at h <;> obtain rfl := Option.some.inj h <;> rfl
  cases marker with
  | startTopFld =>
    simp only [enter, startTopFld, hlast, refuse, ne_eq, reduceCtorEq, not_false_eq_true, or_true,
      if_true] at h
    obtain rfl := Option.some.inj h
    rfl
  | startSubFld =>
    simp only [enter, startSubFld] at h
    split_ifs at h
    · obtain rfl := Option.some.inj h
      rfl
    · exact hopen _ h
  | endFolder =>
    simp only [enter, endFolder, refuse] at h
    split_ifs at h <;> obtain rfl := Option.some.inj h <;> rfl
  | startMessage => exact hmessage _ h
  | startFaiMsg => exact hmessage _ h
  | endMessage =>
    simp [enter, endMessage, hs, hn, refuse] at h
    obtain rfl := h
    rfl
  | startRecip =>
    simp only [enter, startRecip, hchild, refuse, if_true] at h
    obtain rfl := Option.some.inj h
    rfl
  | endToRecip =>
    simp [enter, endToRecip, hlast, refuse] at h
    obtain rfl := h
    rfl
  | newAttach =>
    simp only [enter, newAttach, hchild, refuse, if_true] at h
    obtain rfl := Option.some.inj h
    rfl
  | endAttach =>
    simp [enter, endAttach, endInstance, hlast, refuse] at h
    obtain rfl := h
    rfl
  | startEmbed =>
    simp [enter, startEmbed, hlast, refuse] at h
    obtain rfl := h
    rfl
  | endEmbed =>
    simp [enter, endEmbed, endInstance, hlast, refuse] at h
    obtain rfl := h
    rfl
  | fxErrorInfo =>
    obtain rfl := Option.some.inj h
    rfl
  | other _ =>
    obtain rfl := Option.some.inj h
    rfl

lemma placed_congr {p q : FastupctxObject} (hobject : p.pobject = q.pobject)
    (hstack : p.markerStack = q.markerStack) {c : StoreCall} (h : Placed p c) : Placed q c := by
  cases c <;> simp only [Placed, hobject, hstack] at h ⊢ <;> exact h

/-- **A marker.** Its effect is defined, and keeps the upload coherent. -/
theorem recordMarker_spec (h : Coherent pctx) {marker : Marker} (hpending : PendingFits pctx)
    (hfits : MarkerFits pctx ans marker) :
    ∃ o, fastupctxObjectRecordMarker ans pctx marker = some o ∧ Keeps pctx o := by
  obtain ⟨⟨b, p, calls⟩, hsettle, hkeeps, hsettled, hlast, hm, hstack⟩ :=
    settle_spec ans h hpending
  unfold fastupctxObjectRecordMarker
  rw [hsettle, Option.bind_some]
  cases b with
  | false => exact ⟨_, rfl, hkeeps⟩
  | true =>
    obtain ⟨⟨b, q, calls'⟩, henter, hkeeps'⟩ :=
      enter_spec (hsettled rfl) (markerFits_congr hkeeps.root hlast hm hfits)
    simp only [Bool.true_eq_false, if_false]
    rw [henter, Option.map_some]
    refine ⟨_, rfl, hkeeps'.coherent, hkeeps'.root.trans hkeeps.root,
      hkeeps'.object.trans hkeeps.object, fun c hc => ?_⟩
    rcases List.mem_append.mp hc with hc | hc
    · exact hkeeps.placed c hc
    · by_cases hsub : pctx.lastMarker = some .startSubFld
      · have hnil : calls' = [] := enter_calls (hlast.trans hsub) henter
        rw [hnil] at hc
        cases hc
      · exact placed_congr hkeeps.object (hstack hsub) (hkeeps'.placed c hc)

/-! ### Properties -/

/-- A property for the innermost element: not one of the tags taken or refused anywhere. -/
def Ordinary (pctx : FastupctxObject) (ppropval : TaggedPropval) : Prop :=
  ppropval.proptag ≠ metaTagFxDelProp ∧ ppropval.proptag ∉ passedTags ∧
    ppropval.proptag ∉ refusedTags ∧ objectRefused pctx ppropval.proptag = false

/-- The innermost element is a folder. -/
def AtFolder (pctx : FastupctxObject) : Prop :=
  pctx.lastMarker = some .startTopFld ∨ pctx.lastMarker = some .startSubFld ∨
    (pctx.lastMarker = none ∧ pctx.rootElement = .folderContent)

/-- Where a property goes: the list of the innermost folder or recipient, what the innermost
marker points at, or the innermost instance. -/
inductive Applied (pctx : FastupctxObject) (ppropval : TaggedPropval) :
    FastupctxObject → List StoreCall → Prop
  | list {l : TpropvalArray} : pctx.pproplist = some l →
      Applied pctx ppropval { pctx with pproplist := some (setPropval l ppropval true).2 } []
  | element {e : Element} {m : MessageContent} {l : TpropvalArray} :
      Elements pctx.rootElement e pctx.markerStack → pctx.pmsgctnt = some m →
      m.proplist? e = some l →
      Applied pctx ppropval
        { pctx with pmsgctnt := some (m.setProplist (setPropval l ppropval true).2 e) } []
  | message {id : ℕ} : Instances pctx.rootElement pctx.pobject (.message id) pctx.markerStack →
      Applied pctx ppropval pctx [.setInstanceProperty id ppropval]
  | attachment {id : ℕ} :
      Instances pctx.rootElement pctx.pobject (.attachment id) pctx.markerStack →
      Applied pctx ppropval pctx [.setInstanceProperty id ppropval]

/-- What a property event does to a coherent upload. -/
structure Records (pctx : FastupctxObject) (ppropval : TaggedPropval) (o : Outcome) : Prop where
  keeps : Keeps pctx o
  refused : o.1 = false → o.2.1 = pctx
  applied : o.1 = true → Ordinary pctx ppropval → Applied pctx ppropval o.2.1 o.2.2

/-- An event that keeps clear of the branches named in `PendingFits` and `MarkerFits`, and a
property for a folder only while there is a list for it. -/
def Fits (pctx : FastupctxObject) (e : Event × Answers) : Prop :=
  match e.1 with
  | .marker marker => PendingFits pctx ∧ MarkerFits pctx e.2 marker
  | .propval ppropval => Ordinary pctx ppropval → AtFolder pctx → pctx.pproplist.isSome

lemma records_unchanged (h : Coherent pctx) {ppropval : TaggedPropval} {b : Bool}
    {calls : List StoreCall} (hcalls : ∀ c ∈ calls, Placed pctx c)
    (hspecial : ¬ Ordinary pctx ppropval) : Records pctx ppropval (b, pctx, calls) :=
  ⟨⟨h, rfl, rfl, hcalls⟩, fun _ => rfl, fun _ hord => absurd hord hspecial⟩

lemma setPropval_fst (l : TpropvalArray) (ppropval : TaggedPropval) (mem : Bool) :
    (setPropval l ppropval mem).1 = mem := by
  cases mem
  · rfl
  · simp only [setPropval, Bool.true_eq_false, if_false]
    split_ifs <;> rfl

lemma setPropval_false (l : TpropvalArray) (ppropval : TaggedPropval) :
    (setPropval l ppropval false).2 = l := rfl

/-- A property for a list that is there. -/
lemma setOnList_spec {l : TpropvalArray} (hl : pctx.pproplist = some l) (ppropval : TaggedPropval)
    (hkeep : ∀ l', Coherent { pctx with pproplist := some l' }) :
    ∃ o, setOnList ans pctx ppropval = some o ∧ Records pctx ppropval o := by
  unfold setOnList
  rw [hl, Option.map_some]
  refine ⟨_, rfl, ⟨hkeep _, rfl, rfl, by simp⟩, fun hb => ?_, fun hb _ => ?_⟩
  · simp only [setPropval_fst] at hb
    simp only [hb, setPropval_false, ← hl]
  · simp only [setPropval_fst] at hb
    simp only [hb]
    exact .list hl

lemma setOnElement_spec {n : MarkerNode} {e : Element} {m : MessageContent} {ppropval : TaggedPropval}
    (h : Elements pctx.rootElement e pctx.markerStack) (hroot : pctx.byInstance = false)
    (hl : pctx.pproplist = none) (hm : pctx.pmsgctnt = some m) (he : (m.proplist? e).isSome)
    (hn : n.element? = some e) :
    ∃ o, setOnElement ans pctx n ppropval = some o ∧ Records pctx ppropval o := by
  obtain ⟨l, hlist⟩ := Option.isSome_iff_exists.mp he
  unfold setOnElement
  simp only [hn, hm, hlist, Option.map_some]
  refine ⟨_, rfl, ⟨.settled (.element hroot h hl rfl ?_), rfl, rfl, by simp⟩, fun hb => ?_,
    fun hb _ => ?_⟩
  · rw [MessageContent.isSome_setProplist _ he]
    rfl
  · simp only [setPropval_fst] at hb
    simp only [hb, setPropval_false, MessageContent.setProplist_self hlist, ← hm]
  · simp only [setPropval_fst] at hb
    simp only [hb]
    exact .element h hm hlist

lemma setOnInstance_spec {i : Instance} {id : ℕ} {ppropval : TaggedPropval}
    (h : Instances pctx.rootElement pctx.pobject i pctx.markerStack)
    (hl : pctx.pproplist = none) (hm : pctx.pmsgctnt = none)
    (hid : i = .message id ∨ i = .attachment id) :
    ∃ o, some (setOnInstance ans pctx id ppropval) = some o ∧ Records pctx ppropval o := by
  refine ⟨_, rfl, ⟨.settled (.instances h hl hm), rfl, rfl, by simp [setOnInstance, Placed]⟩,
    fun _ => rfl, fun _ _ => ?_⟩
  rcases hid with rfl | rfl
  · exact .message h
  · exact .attachment h

/-- **A property for the innermost element.** It is there to take the property. -/
theorem setInnermost_spec (h : Coherent pctx) {ppropval : TaggedPropval}
    (hfits : AtFolder pctx → pctx.pproplist.isSome) :
    ∃ o, setInnermost ans pctx ppropval = some o ∧ Records pctx ppropval o := by
  have hrefused : ∃ o, pctx.refuse = some o ∧ Records pctx ppropval o :=
    ⟨_, rfl, keeps_refused h, fun _ => rfl, fun hb => Bool.noConfusion hb⟩
  unfold setInnermost
  cases h with
  | top h hl hm =>
    have hkeep : ∀ l', Coherent { pctx with pproplist := some l' } := fun l' => .top h rfl hm
    rcases h with ⟨hroot, hstack⟩ | ⟨-, hstack⟩
    · simp only [hroot, hstack]
      exact setOnList_spec hl ppropval hkeep
    · simp only [hstack]
      exact setOnList_spec hl ppropval hkeep
  | subfolder hstack hsub hfolders hl hm =>
    simp only [hstack]
    exact setOnList_spec hl ppropval fun l' => .subfolder hstack hsub hfolders rfl hm
  | settled h =>
    cases h with
    | folder hroot hstack hl hm =>
      -- No list is there, so the innermost element is no folder that takes one.
      have hnot : ¬ AtFolder pctx := fun hat => by simpa [hl] using hfits hat
      unfold AtFolder lastMarker at hnot
      generalize pctx.markerStack = stack at hstack hnot
      cases hstack with
      | root =>
        cases hr : pctx.rootElement <;> simp_all [byInstance]
      | top _ => simp at hnot
      | sub _ _ => simp at hnot
    | @element e m hroot hstack hl hm he =>
      have hset : ∀ n, n.element? = some e → ∃ o,
          setOnElement ans pctx n ppropval = some o ∧ Records pctx ppropval o :=
        fun n => setOnElement_spec hstack hroot hl hm he
      generalize pctx.markerStack = stack at hstack
      cases hstack with
      | message hmarker _ _ =>
        rcases hmarker with rfl | rfl
        · exact hset _ rfl
        · exact hset _ rfl
      | recipient _ =>
        simp only [hroot, Bool.false_eq_true, if_false]
        exact hset _ rfl
      | attachment _ =>
        simp only [hroot, Bool.false_eq_true, if_false]
        exact hset _ rfl
      | embedded _ =>
        simp only [hroot, Bool.false_eq_true, if_false]
        exact hset _ rfl
    | @instances i hstack hl hm =>
      have hset : ∀ id, i = .message id ∨ i = .attachment id → ∃ o,
          some (setOnInstance ans pctx id ppropval) = some o ∧ Records pctx ppropval o :=
        fun id => setOnInstance_spec hstack hl hm
      have hroot : pctx.byInstance = true := by
        simpa [byInstance] using hstack.byInstance
      generalize pctx.markerStack = stack at hstack
      cases hstack with
      | message hr =>
        simp only [hr]
        exact hset _ (.inl rfl)
      | attachment hr =>
        simp only [hr]
        exact hset _ (.inr rfl)
      | new _ =>
        simp only [hroot, if_true, MarkerNode.instanceId?, Option.map_some]
        exact hset _ (.inr rfl)
      | embedded _ =>
        simp only [hroot, if_true, MarkerNode.instanceId?, Option.map_some]
        exact hset _ (.inl rfl)
    | recipient hs hstack hl hm =>
      have hroot : pctx.byInstance = true := by
        simpa [byInstance] using hstack.byInstance
      simp only [hs, hroot, if_true]
      exact setOnList_spec hl ppropval fun l' => .settled (.recipient hs hstack rfl hm)

/-- While a folder waits for its properties no child of a message comes. -/
lemma Coherent.child (h : Coherent pctx) (htakes : takesChild pctx = true) : Settled pctx := by
  cases h with
  | settled h => exact h
  | top h _ _ =>
    unfold takesChild at htakes
    rcases h with ⟨hroot, hstack⟩ | ⟨hroot, hstack⟩ <;> simp [hroot, lastMarker, hstack] at htakes
  | subfolder hstack hsub _ _ _ =>
    unfold takesChild at htakes
    rcases hsub with hroot | hroot <;> simp [hroot, lastMarker, hstack] at htakes

lemma delChildren_spec (h : Coherent pctx) {call : ℕ → StoreCall} (count : MessageContent → ℕ)
    (hcall : ∀ id, Placed pctx (call id)) :
    ∃ b calls, delChildren ans pctx call count = some (b, pctx, calls) ∧
      ∀ c ∈ calls, Placed pctx c := by
  unfold delChildren
  by_cases htakes : takesChild pctx = true
  · rw [if_neg (by simp [htakes])]
    rcases (h.child htakes).child htakes with
      ⟨hroot, -, path, m, x, hstack, hm, hx⟩ | ⟨hroot, -, -, id, hstack⟩
    · rw [lastMessage_eq hstack hm hx]
      cases hr : pctx.rootElement with
      | messageContent => simp [byInstance, hr] at hroot
      | attachmentContent => simp [byInstance, hr] at hroot
      | folderContent => exact ⟨_, _, rfl, by simp⟩
      | messageList => exact ⟨_, _, rfl, by simp⟩
      | topFolder => exact ⟨_, _, rfl, by simp⟩
    · have hlast : fastupctxObjectGetLastMessageInstance pctx = some id := hstack.lastMessage
      rcases hstack.byInstance with hr | hr
      · simp only [hr]
        by_cases hnone : pctx.lastMarker = none
        · rw [if_pos hnone, hlast, Option.map_some]
          exact ⟨_, _, rfl, by simpa using hcall id⟩
        · rw [if_neg hnone]
          exact ⟨_, _, rfl, by simp⟩
      · simp only [hr]
        exact ⟨_, _, rfl, by simp⟩
  · rw [if_pos (by simpa using htakes)]
    exact ⟨_, _, rfl, by simp⟩

lemma delContents_spec (bNormal bFai bSub : Bool) :
    ∃ b calls, delContents ans pctx bNormal bFai bSub = some (b, pctx, calls) ∧
      ∀ c ∈ calls, Placed pctx c := by
  unfold delContents
  by_cases hno : pctx.rootElement ≠ .folderContent ∨
      (pctx.lastMarker ≠ some .startSubFld ∧ pctx.lastMarker ≠ none)
  · rw [if_pos hno]
    exact ⟨_, _, rfl, by simp⟩
  · rw [if_neg hno]
    split_ifs
    · exact ⟨_, _, rfl, by simp [Placed]⟩
    · exact ⟨_, _, rfl, by simp⟩

lemma delProps_spec (ans : Answers) (h : Coherent pctx) (proptag : ℕ) :
    ∃ b calls, fastupctxObjectDelProps ans pctx proptag = some (b, pctx, calls) ∧
      ∀ c ∈ calls, Placed pctx c := by
  unfold fastupctxObjectDelProps
  split_ifs
  · exact delChildren_spec h _ fun _ => trivial
  · exact delChildren_spec h _ fun _ => trivial
  · exact delContents_spec _ _ _
  · exact delContents_spec _ _ _
  · exact delContents_spec _ _ _
  · exact ⟨_, _, rfl, by simp⟩

/-- **A property.** Its effect is defined; a refused one changes nothing, and an ordinary one
that is taken is set on the innermost element. -/
theorem recordPropval_spec (ans : Answers) (h : Coherent pctx) {ppropval : TaggedPropval}
    (hfits : Ordinary pctx ppropval → AtFolder pctx → pctx.pproplist.isSome) :
    ∃ o, fastupctxObjectRecordPropval ans pctx ppropval = some o ∧ Records pctx ppropval o := by
  unfold fastupctxObjectRecordPropval
  by_cases hdel : ppropval.proptag = metaTagFxDelProp
  · rw [if_pos hdel]
    obtain ⟨b, calls, hres, hplaced⟩ := delProps_spec ans h
      (SteepSystem.Lib.Bytes.ofLE (ppropval.value.take 4))
    exact ⟨_, hres, records_unchanged h hplaced fun hord => hord.1 hdel⟩
  · rw [if_neg hdel]
    by_cases hpass : ppropval.proptag ∈ passedTags
    · rw [if_pos hpass]
      exact ⟨_, rfl, records_unchanged h (by simp) fun hord => hord.2.1 hpass⟩
    · rw [if_neg hpass]
      by_cases hno : ppropval.proptag ∈ refusedTags
      · rw [if_pos hno]
        exact ⟨_, rfl, records_unchanged h (by simp) fun hord => hord.2.2.1 hno⟩
      · rw [if_neg hno]
        cases hobject : objectRefused pctx ppropval.proptag with
        | true =>
          rw [if_pos rfl]
          exact ⟨_, rfl, records_unchanged h (by simp) fun hord => by simp [hord.2.2.2] at hobject⟩
        | false =>
          rw [if_neg (by simp)]
          exact setInnermost_spec h (hfits ⟨hdel, hpass, hno, hobject⟩)

/-- **One event.** -/
theorem exec_spec (h : Coherent pctx) {e : Event × Answers} (hfits : Fits pctx e) :
    ∃ o, exec pctx e = some o ∧ Keeps pctx o ∧ ∀ p, e.1 = .propval p → Records pctx p o := by
  obtain ⟨e, ans⟩ := e
  cases e with
  | marker marker =>
    obtain ⟨o, hres, hkeeps⟩ := recordMarker_spec h hfits.1 hfits.2
    exact ⟨o, hres, hkeeps, fun p hp => by cases hp⟩
  | propval ppropval =>
    obtain ⟨o, hres, hrec⟩ := recordPropval_spec ans h hfits
    refine ⟨o, hres, hrec.keeps, fun p hp => ?_⟩
    cases hp
    exact hrec

/-! ### Runs -/

lemma coherent_create (pobject : ℕ) (root : RootElement) :
    Coherent (fastupctxObjectCreate pobject root) := by
  cases root with
  | folderContent => exact .top (.inl ⟨rfl, rfl⟩) rfl rfl
  | messageContent => exact .settled (.instances (.message rfl) rfl rfl)
  | attachmentContent => exact .settled (.instances (.attachment rfl) rfl rfl)
  | messageList => exact .settled (.folder rfl .root rfl rfl)
  | topFolder => exact .settled (.folder rfl .root rfl rfl)

/-- **Every run whose events fit.** The markers nest properly, and the list and the message are
those of the innermost element; the next fitting event has a defined effect, keeps that and puts
what it makes below the nearest enclosing folder; a refused property changes nothing, and one
that is taken is set on the innermost element. -/
theorem coherent_of_run {pobject : ℕ} {root : RootElement} {events : List (Event × Answers)}
    (h : Run Fits (fun s e s' => ∃ b calls, exec s e = some (b, s', calls))
      (fastupctxObjectCreate pobject root) events pctx) :
    Coherent pctx ∧ pctx.rootElement = root ∧ pctx.pobject = pobject ∧
      ∀ e, Fits pctx e → ∃ o, exec pctx e = some o ∧ Keeps pctx o ∧
        ∀ p, e.1 = .propval p → Records pctx p o := by
  have hend : Coherent pctx ∧ pctx.rootElement = root ∧ pctx.pobject = pobject := by
    refine h.invariant (I := fun s => Coherent s ∧ s.rootElement = root ∧ s.pobject = pobject) ?_
      ⟨coherent_create pobject root, rfl, rfl⟩
    rintro s e s' ⟨hcoherent, hroot, hobject⟩ hfits ⟨b, calls, hstep⟩
    obtain ⟨o, hres, hkeeps, -⟩ := exec_spec hcoherent hfits
    obtain rfl := Option.some.inj (hres.symm.trans hstep)
    exact ⟨hkeeps.coherent, hkeeps.root.trans hroot, hkeeps.object.trans hobject⟩
  exact ⟨hend.1, hend.2.1, hend.2.2, fun e hfits => exec_spec hend.1 hfits⟩

/-- Everything that an event asks for is granted. -/
def granted : Answers :=
  let save : SaveAnswers := ⟨5, some 3, fun _ => some [1], fun _ _ => some [2], some 9, none, true⟩
  ⟨true, save, 6, 2, 11, 12, save⟩

/-- A subfolder with a name, and a message in it. -/
def subfolderEvents : List (Event × Answers) :=
  [(.marker .startSubFld, granted), (.propval ⟨propTagDisplayName, [65, 0]⟩, granted),
    (.marker .startMessage, granted), (.marker .endMessage, granted)]

/-- The upload of the subfolder and the message into the folder 7. -/
theorem coherent_of_run_subfolder :
    ∃ pctx, Run Fits (fun s e s' => ∃ b calls, exec s e = some (b, s', calls))
        (fastupctxObjectCreate 7 .folderContent) subfolderEvents pctx ∧
      pctx.markerStack = [⟨.startSubFld, .folderId 9⟩] ∧ Coherent pctx := by
  have hfits : ∀ {s : FastupctxObject} {m : Marker}, s.pproplist = none ∨ s.lastMarker = none →
      MarkerFits s granted m → Fits s (.marker m, granted) := by
    intro s m hs hm
    refine ⟨fun l hlast hl => ?_, hm⟩
    rcases hs with hs | hs
    · simp [hs] at hl
    · simp [hs] at hlast
  obtain ⟨pctx, hrun, hstack⟩ : ∃ pctx, Run Fits
      (fun s e s' => ∃ b calls, exec s e = some (b, s', calls))
      (fastupctxObjectCreate 7 .folderContent) subfolderEvents pctx ∧
      pctx.markerStack = [⟨.startSubFld, .folderId 9⟩] := by
    refine ⟨_, .cons (hfits (.inr rfl) ?_) ⟨_, _, rfl⟩ (.cons (fun _ _ => rfl) ⟨_, _, rfl⟩
      (.cons ?_ ⟨_, _, rfl⟩ (.cons (hfits (.inl rfl) ?_) ⟨_, _, rfl⟩ (.nil _)))), rfl⟩
    · exact fun _ => .inr ⟨by decide, .inl rfl⟩
    · refine ⟨fun l _ hl _ => ⟨by decide, ?_⟩, fun _ _ => .inr (by decide)⟩
      obtain rfl := Option.some.inj hl
      decide
    · exact fun _ => ⟨rfl, by decide, 3, [1], rfl, rfl, fun _ => rfl⟩
  exact ⟨pctx, hrun, hstack, (coherent_of_run hrun).1⟩

/-- **A property after a subfolder.** The list of the folder uploaded to went with the first
marker, and the next property is set on a list that is not there. -/
theorem not_coherent_of_run : ¬ ∀ (pobject : ℕ) (root : RootElement)
    (events : List (Event × Answers)) (pctx : FastupctxObject),
    Run (fun _ _ => True) (fun s e s' => ∃ b calls, exec s e = some (b, s', calls))
      (fastupctxObjectCreate pobject root) events pctx → ∀ e, ∃ o, exec pctx e = some o := by
  intro h
  obtain ⟨o, ho⟩ := h 7 .folderContent
    [(.marker .startSubFld, granted), (.propval ⟨propTagDisplayName, [65, 0]⟩, granted),
      (.marker .endFolder, granted)] _
    (.cons trivial ⟨_, _, rfl⟩ (.cons trivial ⟨_, _, rfl⟩ (.cons trivial ⟨_, _, rfl⟩ (.nil _))))
    (.propval ⟨0x3004001F, [66, 0]⟩, granted)
  have hnone : (none : Option Outcome) = some o := ho
  cases hnone

end SteepSystem.Fastupctx
