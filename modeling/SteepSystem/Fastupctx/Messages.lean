import SteepSystem.Fastupctx.Run

/-!
The events of a message as `ftstream_producer.c` writes one: its properties, a recipient after the
other, and the attachments, each with the message that is embedded in it. From them the upload puts
the same message together, however deep the messages are embedded.
-/

namespace SteepSystem.Fastupctx

open SteepSystem.Lib.Bytes FastupctxObject

/-! ### What is written of a message -/

def recipientEvents (prcpt : TpropvalArray) : List Event :=
  .marker .startRecip :: (prcpt.map .propval ++ [.marker .endToRecip])

mutual

def contentEvents : MessageContent → List Event
  | ⟨proplist, prcpts, pattachments⟩ =>
    proplist.map .propval ++ (prcpts.flatMap recipientEvents ++ attachmentsEvents pattachments)

def attachmentsEvents : List (TpropvalArray × Option MessageContent) → List Event
  | [] => []
  | a :: pattachments => attachmentEvents a ++ attachmentsEvents pattachments

def attachmentEvents : TpropvalArray × Option MessageContent → List Event
  | (proplist, pembedded) =>
    .marker .newAttach :: (proplist.map .propval ++
      (embeddedEvents pembedded ++ [.marker .endAttach]))

def embeddedEvents : Option MessageContent → List Event
  | none => []
  | some pmessage => .marker .startEmbed :: (contentEvents pmessage ++ [.marker .endEmbed])

end

/-- Whether the message is an associated one. -/
def isAssociated (proplist : TpropvalArray) : Bool :=
  (getPropval proplist propTagAssociated).any fun value => value.headD 0 ≠ 0

def messageMarker (proplist : TpropvalArray) : Marker :=
  if isAssociated proplist then .startFaiMsg else .startMessage

def messageEvents (m : MessageContent) : List Event :=
  .marker (messageMarker m.proplist) :: (contentEvents m ++ [.marker .endMessage])

/-! ### What can be sent -/

/-- A property that the upload sets; an object is one of an attachment. -/
structure Plain (attachment : Bool) (p : TaggedPropval) : Prop where
  notDelProp : p.proptag ≠ metaTagFxDelProp
  notPassed : p.proptag ∉ passedTags
  notRefused : p.proptag ∉ refusedTags
  object : p.proptag % 0x10000 = 0x000D → attachment = true ∧ p.proptag = propTagAttachDataObject

/-- A list with room for each of its properties. -/
structure PlainList (attachment : Bool) (l : TpropvalArray) : Prop where
  plain : ∀ p ∈ l, Plain attachment p
  nodup : (l.map TaggedPropval.proptag).Nodup
  short : l.length < 2 ^ 16

instance (attachment : Bool) (p : TaggedPropval) : Decidable (Plain attachment p) :=
  decidable_of_iff ((p.proptag ≠ metaTagFxDelProp ∧ p.proptag ∉ passedTags) ∧
      p.proptag ∉ refusedTags ∧ (p.proptag % 0x10000 = 0x000D →
        attachment = true ∧ p.proptag = propTagAttachDataObject))
    ⟨fun h => ⟨h.1.1, h.1.2, h.2.1, h.2.2⟩, fun h => ⟨⟨h.1, h.2⟩, h.3, h.4⟩⟩

instance (attachment : Bool) (l : TpropvalArray) : Decidable (PlainList attachment l) :=
  decidable_of_iff ((∀ p ∈ l, Plain attachment p) ∧ (l.map TaggedPropval.proptag).Nodup ∧
      l.length < 2 ^ 16)
    ⟨fun h => ⟨h.1, h.2.1, h.2.2⟩, fun h => ⟨h.1, h.2, h.3⟩⟩

inductive Sendable : MessageContent → Prop
  | mk {proplist : TpropvalArray} {prcpts : List TpropvalArray}
      {pattachments : List (TpropvalArray × Option MessageContent)}
      (hproplist : PlainList false proplist) (hprcpts : ∀ l ∈ prcpts, PlainList false l)
      (hfew : prcpts.length ≤ 0xFF00) (hattachments : ∀ a ∈ pattachments, PlainList true a.1)
      (hfewAttachments : pattachments.length ≤ 0x8000)
      (hembedded : ∀ a ∈ pattachments, ∀ e, a.2 = some e → Sendable e) :
      Sendable ⟨proplist, prcpts, pattachments⟩

/-- Properties set one after another. -/
def setAll (l ps : TpropvalArray) : TpropvalArray := ps.foldl (fun l p => (setPropval l p true).2) l

lemma setAll_append {l ps : TpropvalArray} (hnodup : ((l ++ ps).map TaggedPropval.proptag).Nodup)
    (hshort : (l ++ ps).length < 2 ^ 16) : setAll l ps = l ++ ps := by
  induction ps generalizing l with
  | nil => simp [setAll]
  | cons p ps ih =>
    have hsplit : l ++ p :: ps = (l ++ [p]) ++ ps := by simp
    have hnone : getPropval l p.proptag = none := by
      simp only [getPropval, Option.map_eq_none_iff, List.find?_eq_none, decide_eq_true_eq]
      intro q hq heq
      rw [List.map_append, List.nodup_append] at hnodup
      exact hnodup.2.2 q.proptag (List.mem_map_of_mem hq) p.proptag (by simp) heq
    have hset : (setPropval l p true).2 = l ++ [p] := by
      rw [List.length_append, List.length_cons] at hshort
      simp only [setPropval, Bool.true_eq_false, if_false, hnone, Option.isSome_none]
      rw [if_neg (by simp), if_neg (by omega)]
    rw [hsplit] at hnodup hshort ⊢
    rw [← ih hnodup hshort, ← hset]
    rfl

lemma setAll_nil {l : TpropvalArray} {attachment : Bool} (h : PlainList attachment l) :
    setAll [] l = l := setAll_append (by simpa using h.nodup) (by simpa using h.short)

/-! ### Paths -/

namespace MessageContent

variable {m x y z : MessageContent} {path : List ℕ}

lemma put_put (h : m.message? path = some y) : (m.put x path).put z path = m.put z path := by
  induction path generalizing m with
  | nil => rfl
  | cons i path ih =>
    rw [message?] at h
    split at h
    · rename_i l e hi
      have hlt : i < m.pattachments.length := (List.getElem?_eq_some_iff.mp hi).1
      have hset : (m.pattachments.set i (l, some (e.put x path)))[i]? =
          some (l, some (e.put x path)) := by simp [hlt]
      simp only [put, hi, hset, ih h, List.set_set]
    · cases h

lemma put_setProplist_message {l : TpropvalArray} (h : m.message? path = some x) :
    m.setProplist l (.message path) = m.put { x with proplist := l } path := by
  simp only [setProplist, h]

/-- Only the last list counts. -/
lemma setProplist_setProplist {e : Element} {l l' : TpropvalArray} (h : (m.proplist? e).isSome) :
    (m.setProplist l e).setProplist l' e = m.setProplist l' e := by
  cases e with
  | message path =>
    obtain ⟨x, hx⟩ := message_of_proplist h
    simp only [setProplist, hx, message?_put hx, put_put hx]
  | recipient path j =>
    obtain ⟨x, hx⟩ := message_of_proplist (proplist_of_recipient h)
    simp only [setProplist, hx, message?_put hx, put_put hx, List.set_set]
  | attachment path i =>
    obtain ⟨x, hx⟩ := message_of_proplist (proplist_of_attachment h)
    simp only [setProplist, hx, message?_put hx, put_put hx, List.modify_modify_eq]
    rfl

/-- The message embedded in the last attachment of the way. -/
lemma put_append {i : ℕ} {l : TpropvalArray} {e : MessageContent} (h : m.message? path = some x)
    (hi : x.pattachments[i]? = some (l, some e)) :
    m.put y (path ++ [i]) =
      m.put { x with pattachments := x.pattachments.set i (l, some y) } path := by
  induction path generalizing m with
  | nil =>
    obtain rfl := Option.some.inj h
    simp only [List.nil_append, put, hi]
  | cons j path ih =>
    rw [message?] at h
    split at h
    · rename_i l' e' hj
      simp only [List.cons_append, put, hj, ih h]
    · cases h

lemma message_append {i : ℕ} {l : TpropvalArray} {e : MessageContent}
    (h : m.message? path = some x) (hi : x.pattachments[i]? = some (l, some e)) :
    m.message? (path ++ [i]) = some e := by
  rw [message?_append, h, Option.bind_some, message?, hi]
  rfl

end MessageContent

/-! ### Runs -/

/-- All that is asked for is granted. -/
structure Grants (ans : Answers) : Prop where
  memory : 6 ≤ ans.mem
  saves : Saves ans.save

/-- One event after another, as long as they are taken, and all calls that are made. -/
def execAll : FastupctxObject → List (Event × Answers) → Option (FastupctxObject × List StoreCall)
  | pctx, [] => some (pctx, [])
  | pctx, e :: es =>
    match exec pctx e with
    | some (true, pctx, calls) => (execAll pctx es).map fun y => (y.1, calls ++ y.2)
    | _ => none

/-- Where all is granted, the events lead from one state to the other without a call. -/
structure Quiet (p q : FastupctxObject) (events : List Event) : Prop where
  run : ∀ es, es.map Prod.fst = events → (∀ e ∈ es, Grants e.2) → execAll p es = some (q, [])

variable {p q r : FastupctxObject} {events events' : List Event}

lemma execAll_append {es es' : List (Event × Answers)} {calls : List StoreCall}
    (h : execAll p es = some (q, calls)) :
    execAll p (es ++ es') = (execAll q es').map fun y => (y.1, calls ++ y.2) := by
  induction es generalizing p calls with
  | nil =>
    obtain ⟨rfl, rfl⟩ : p = q ∧ [] = calls := by simpa [execAll] using h
    simp
  | cons e es ih =>
    rw [execAll] at h
    rw [List.cons_append, execAll]
    split at h
    · rename_i p₁ calls₁ hexec
      obtain ⟨⟨q', calls₂⟩, h₂, heq⟩ := Option.map_eq_some_iff.mp h
      obtain ⟨rfl, rfl⟩ : q' = q ∧ calls₁ ++ calls₂ = calls := by simpa using heq
      rw [ih h₂, Option.map_map]
      exact congrArg (Option.map · _) (funext fun y => by simp)
    · cases h

namespace Quiet

lemma nil : Quiet p p [] where
  run es hes _ := by
    rw [List.map_eq_nil_iff.mp hes]
    rfl

lemma append (h : Quiet p q events) (h' : Quiet q r events') : Quiet p r (events ++ events') where
  run es hes hall := by
    obtain ⟨es₁, es₂, rfl, h₁, h₂⟩ := List.map_eq_append_iff.mp hes
    rw [execAll_append (h.run es₁ h₁ fun e he => hall e (List.mem_append_left _ he)),
      h'.run es₂ h₂ fun e he => hall e (List.mem_append_right _ he)]
    rfl

lemma cons {e : Event} (h : ∀ ans, Grants ans → exec p (e, ans) = some (true, q, []))
    (h' : Quiet q r events) : Quiet p r (e :: events) where
  run es hes hall := by
    obtain ⟨⟨e', ans⟩, es', rfl, rfl, hes'⟩ := List.map_eq_cons_iff.mp hes
    rw [execAll, h ans (hall _ List.mem_cons_self)]
    dsimp only
    rw [h'.run es' hes' fun e he => hall e (List.mem_cons_of_mem _ he)]
    rfl

end Quiet

/-! ### Inside of a message -/

/-- The markers of what has properties in a message. -/
def Marker.HasProps (marker : Marker) : Prop :=
  marker = .startMessage ∨ marker = .startFaiMsg ∨ marker = .startEmbed ∨ marker = .newAttach ∨
    marker = .startRecip

/-- The markers of messages. -/
def Marker.HasChildren (marker : Marker) : Prop :=
  marker = .startMessage ∨ marker = .startFaiMsg ∨ marker = .startEmbed

/-- A message under construction, with the element that is innermost. -/
structure Inside (pctx : FastupctxObject) (n : MarkerNode) (stack : List MarkerNode)
    (m : MessageContent) (e : Element) : Prop where
  stack : pctx.markerStack = n :: stack
  content : pctx.pmsgctnt = some m
  element : n.element? = some e
  marker : n.marker.HasProps
  noList : pctx.pproplist = none
  inMemory : pctx.byInstance = false

variable {pctx : FastupctxObject} {n n' : MarkerNode} {stack : List MarkerNode} {ans : Answers}
  {m x : MessageContent} {e : Element} {path : List ℕ}

namespace Inside

lemma settle (h : Inside pctx n stack m e) : settle ans pctx = some (true, pctx, []) := by
  unfold Fastupctx.settle
  rw [h.stack]
  rcases h.marker with hn | hn | hn | hn | hn <;> simp [hn]

/-- The same with another message. -/
lemma content' (h : Inside pctx n stack m e) (m' : MessageContent) :
    Inside { pctx with pmsgctnt := some m' } n stack m' e :=
  ⟨h.stack, rfl, h.element, h.marker, h.noList, h.inMemory⟩

/-- One property. -/
lemma exec_propval (h : Inside pctx n stack m e) {l : TpropvalArray} (hl : m.proplist? e = some l)
    (hans : Grants ans) {p : TaggedPropval} {attachment : Bool} (hp : Plain attachment p)
    (hobject : attachment = true → n.marker = .newAttach) :
    exec pctx (.propval p, ans) =
      some (true, { pctx with
        pmsgctnt := some (m.setProplist (setPropval l p true).2 e) }, []) := by
  have hmem : 0 < ans.mem := by have := hans.memory; omega
  have hlast : pctx.lastMarker = some n.marker := by simp [lastMarker, h.stack]
  have hrefused : objectRefused pctx p.proptag = false := by
    unfold objectRefused
    by_cases htype : p.proptag % 0x10000 = 0x000D
    · obtain ⟨hattach, htag⟩ := hp.object htype
      simp [hlast, hobject hattach, htag]
    · simp [htype]
  have hset : setOnElement ans pctx n p = some (true, { pctx with
      pmsgctnt := some (m.setProplist (setPropval l p true).2 e) }, []) := by
    simp only [setOnElement, h.element, h.content, hl, Option.map_some, hmem, decide_true,
      setPropval_fst]
  change fastupctxObjectRecordPropval ans pctx p = _
  unfold fastupctxObjectRecordPropval
  rw [if_neg hp.notDelProp, if_neg hp.notPassed, if_neg hp.notRefused, hrefused]
  have hinner : setInnermost ans pctx p = setOnElement ans pctx n p := by
    unfold setInnermost
    rw [h.stack]
    rcases h.marker with hn | hn | hn | hn | hn <;> simp [hn, h.inMemory]
  rw [if_neg Bool.false_ne_true, hinner, hset]

/-- Properties, one after another. -/
lemma quiet_propvals (h : Inside pctx n stack m e) {l ps : TpropvalArray}
    (hl : m.proplist? e = some l) {attachment : Bool} (hps : ∀ p ∈ ps, Plain attachment p)
    (hobject : attachment = true → n.marker = .newAttach) :
    Quiet pctx { pctx with pmsgctnt := some (m.setProplist (setAll l ps) e) }
      (ps.map .propval) := by
  induction ps generalizing pctx m l with
  | nil =>
    have hself : { pctx with pmsgctnt := some (m.setProplist l e) } = pctx := by
      rw [MessageContent.setProplist_self hl, ← h.content]
    change Quiet pctx { pctx with pmsgctnt := some (m.setProplist l e) } []
    rw [hself]
    exact .nil
  | cons p ps ih =>
    have hsome : (m.proplist? e).isSome := by rw [hl]; rfl
    have hl' := MessageContent.isSome_setProplist (setPropval l p true).2 hsome
    have hrest := ih (h.content' _) hl' fun p hp => hps p (List.mem_cons_of_mem _ hp)
    rw [MessageContent.setProplist_setProplist hsome] at hrest
    exact .cons (fun ans hans => h.exec_propval hl hans (hps p List.mem_cons_self) hobject) hrest

lemma exec_marker (h : Inside pctx n stack m e) (marker : Marker) :
    exec pctx (.marker marker, ans) = enter ans pctx marker := by
  change fastupctxObjectRecordMarker ans pctx marker = _
  unfold fastupctxObjectRecordMarker
  rw [h.settle, Option.bind_some]
  change Option.map (fun o : Outcome => (o.1, o.2.1, [] ++ o.2.2)) (enter ans pctx marker) = _
  simp

/-- What is opened inside of it. -/
lemma push (h : Inside pctx n stack m e) {marker : Marker} {m' : MessageContent} {e' : Element}
    (hmarker : marker.HasProps) :
    Inside ({ pctx with pmsgctnt := some m' }.push marker (.pelement e')) ⟨marker, .pelement e'⟩
      (n :: stack) m' e' :=
  ⟨congrArg _ h.stack, rfl, rfl, hmarker, h.noList, h.inMemory⟩

/-- The end of a recipient, an attachment or an embedded message. -/
lemma quiet_end (h : Inside pctx n (n' :: stack) m e) {marker : Marker}
    (hend : n.marker = .startRecip ∧ marker = .endToRecip ∨
      n.marker = .newAttach ∧ marker = .endAttach ∨ n.marker = .startEmbed ∧ marker = .endEmbed) :
    Quiet pctx { pctx with markerStack := n' :: stack } [.marker marker] := by
  have hlast : pctx.lastMarker = some n.marker := by simp [lastMarker, h.stack]
  have hpop : pctx.pop = { pctx with markerStack := n' :: stack } := by simp [pop, h.stack]
  refine .cons (fun ans hans => ?_) .nil
  rw [h.exec_marker, ← hpop]
  rcases hend with ⟨hn, rfl⟩ | ⟨hn, rfl⟩ | ⟨hn, rfl⟩
  · simp [enter, endToRecip, hlast, hn, h.inMemory]
  · simp [enter, endAttach, endInstance, hlast, hn, h.inMemory]
  · simp [enter, endEmbed, endInstance, hlast, hn, h.inMemory]

lemma takesChild (h : Inside pctx n stack m (.message path)) (hn : n.marker.HasChildren) :
    takesChild pctx = true := by
  have hlast : pctx.lastMarker = some n.marker := by simp [lastMarker, h.stack]
  have hroot := h.inMemory
  unfold Fastupctx.takesChild
  cases hr : pctx.rootElement with
  | messageContent => simp [byInstance, hr] at hroot
  | attachmentContent => simp [byInstance, hr] at hroot
  | _ => rcases hn with hn | hn | hn <;> simp [hlast, hn]

lemma lastMessage (h : Inside pctx n stack m (.message path)) (hm : m.message? path = some x) :
    lastMessage pctx = some (m, path, x) := by
  simp [Fastupctx.lastMessage, h.stack, h.element, h.content, hm]

/-- **A recipient** comes behind the others. -/
lemma quiet_recipient (h : Inside pctx n stack m (.message path)) (hn : n.marker.HasChildren)
    (hm : m.message? path = some x) (hfew : x.prcpts.length < 0xFF00) {l : TpropvalArray}
    (hl : PlainList false l) :
    Quiet pctx
      { pctx with pmsgctnt := some (m.put { x with prcpts := x.prcpts ++ [l] } path) }
      (recipientEvents l) := by
  obtain ⟨m₁, hm₁⟩ : ∃ m₁, m₁ = m.put { x with prcpts := x.prcpts ++ [[]] } path := ⟨_, rfl⟩
  have hx₁ : m₁.message? path = some { x with prcpts := x.prcpts ++ [[]] } := by
    rw [hm₁, MessageContent.message?_put hm]
  have hopen (ans : Answers) (hans : Grants ans) : exec pctx (.marker .startRecip, ans) =
      some (true, { pctx with pmsgctnt := some m₁ }.push .startRecip
        (.pelement (.recipient path x.prcpts.length)), []) := by
    have := hans.memory
    rw [h.exec_marker]
    simp only [enter, startRecip]
    rw [if_neg (by simp [h.takesChild hn]), if_neg (by simp [h.inMemory]), if_neg (by omega),
      h.lastMessage hm, Option.bind_some]
    dsimp only
    rw [if_neg (by omega), if_neg (by omega), hm₁]
  have hinside : Inside ({ pctx with pmsgctnt := some m₁ }.push .startRecip
      (.pelement (.recipient path x.prcpts.length))) _ _ m₁ _ := h.push (by simp [Marker.HasProps])
  have hlist : m₁.proplist? (.recipient path x.prcpts.length) = some [] := by
    simp [MessageContent.proplist?, hx₁]
  have hprops := hinside.quiet_propvals hlist hl.plain (by simp)
  rw [setAll_nil hl] at hprops
  have hset : m₁.setProplist l (.recipient path x.prcpts.length) =
      m.put { x with prcpts := x.prcpts ++ [l] } path := by
    simp only [MessageContent.setProplist, hx₁]
    rw [hm₁, MessageContent.put_put hm]
    simp
  rw [hset] at hprops
  refine .cons hopen (hprops.append ?_)
  have hend := (hinside.content' (m.put { x with prcpts := x.prcpts ++ [l] } path)).quiet_end
    (.inl ⟨rfl, rfl⟩)
  rw [← h.stack] at hend
  exact hend

/-- Recipients, one after another. -/
lemma quiet_recipients (h : Inside pctx n stack m (.message path)) (hn : n.marker.HasChildren)
    (hm : m.message? path = some x) {rs : List TpropvalArray} (hrs : ∀ l ∈ rs, PlainList false l)
    (hfew : x.prcpts.length + rs.length ≤ 0xFF00) :
    Quiet pctx { pctx with pmsgctnt := some (m.put { x with prcpts := x.prcpts ++ rs } path) }
      (rs.flatMap recipientEvents) := by
  induction rs generalizing pctx m x with
  | nil =>
    have hself : { pctx with pmsgctnt := some (m.put { x with prcpts := x.prcpts ++ [] } path) } =
        pctx := by
      rw [List.append_nil, MessageContent.eta, MessageContent.put_self hm, ← h.content]
    rw [hself]
    exact .nil
  | cons l rs ih =>
    rw [List.length_cons] at hfew
    have hfirst := h.quiet_recipient hn hm (by omega) (hrs l List.mem_cons_self)
    have hrest := ih (h.content' (m.put { x with prcpts := x.prcpts ++ [l] } path))
      (MessageContent.message?_put hm) (fun l hl => hrs l (List.mem_cons_of_mem _ hl))
      (by simp only [List.length_append, List.length_singleton]; omega)
    rw [MessageContent.put_put hm] at hrest
    simp only [List.append_assoc, List.singleton_append] at hrest
    rw [List.flatMap_cons]
    exact hfirst.append hrest

end Inside

/-- The events of its content fill a message that has only its first properties. -/
structure Fills (y : MessageContent) : Prop where
  quiet : ∀ {pctx n stack m path l}, Inside pctx n stack m (.message path) →
    n.marker.HasChildren → m.message? path = some ⟨l, [], []⟩ →
    Quiet pctx { pctx with
      pmsgctnt := some (m.put ⟨setAll l y.proplist, y.prcpts, y.pattachments⟩ path) }
      (contentEvents y)

namespace Inside

/-- **The message that is embedded** in the last attachment. -/
lemma quiet_embedded {l : TpropvalArray}
    (h : Inside pctx n (n' :: stack) m (.attachment path x.pattachments.length))
    (hn : n.marker = .newAttach)
    (hm : m.message? path = some { x with pattachments := x.pattachments ++ [(l, none)] })
    {y : MessageContent} (hy : Fills y) (hplain : PlainList false y.proplist) :
    Quiet pctx
      { pctx with
        pmsgctnt := some (m.put { x with pattachments := x.pattachments ++ [(l, some y)] } path) }
      (embeddedEvents (some y)) := by
  obtain ⟨m₁, hm₁⟩ : ∃ m₁, m₁ =
      m.put { x with pattachments := x.pattachments ++ [(l, some ⟨[], [], []⟩)] } path := ⟨_, rfl⟩
  have hx₁ : m₁.message? path =
      some { x with pattachments := x.pattachments ++ [(l, some ⟨[], [], []⟩)] } := by
    rw [hm₁, MessageContent.message?_put hm]
  have hmarker : pctx.lastMarker = some n.marker := by simp [lastMarker, h.stack]
  have hopen (ans : Answers) (hans : Grants ans) : exec pctx (.marker .startEmbed, ans) =
      some (true, { pctx with pmsgctnt := some m₁ }.push .startEmbed
        (.pelement (.message (path ++ [x.pattachments.length]))), []) := by
    have := hans.memory
    rw [h.exec_marker]
    simp only [enter, startEmbed]
    rw [if_neg (by simp [hmarker, hn]), if_neg (by simp [h.inMemory]), if_neg (by omega),
      if_neg (by omega), if_neg (by omega), h.stack]
    simp only [List.head?_cons, Option.bind_some, h.element, h.content, hm]
    rw [List.getElem?_concat_length, Option.bind_some, if_neg (by omega), hm₁]
    simp [FastupctxObject.push]
  have hinside : Inside ({ pctx with pmsgctnt := some m₁ }.push .startEmbed
      (.pelement (.message (path ++ [x.pattachments.length])))) _ _ m₁ _ :=
    h.push (by simp [Marker.HasProps])
  have hlast : (x.pattachments ++ [(l, some (⟨[], [], []⟩ : MessageContent))])[
      x.pattachments.length]? = some (l, some ⟨[], [], []⟩) := List.getElem?_concat_length
  have hcontent := hy.quiet hinside (.inr (.inr rfl)) (MessageContent.message_append hx₁ hlast)
  rw [setAll_nil hplain, MessageContent.eta, MessageContent.put_append hx₁ hlast] at hcontent
  have hput : m₁.put { x with pattachments := (x.pattachments ++
      [(l, some (⟨[], [], []⟩ : MessageContent))]).set x.pattachments.length (l, some y) } path =
        m.put { x with pattachments := x.pattachments ++ [(l, some y)] } path := by
    rw [hm₁, MessageContent.put_put hm]
    simp
  rw [hput] at hcontent
  have hend := (hinside.content' (m.put { x with
    pattachments := x.pattachments ++ [(l, some y)] } path)).quiet_end (.inr (.inr ⟨rfl, rfl⟩))
  rw [← h.stack] at hend
  exact .cons hopen (hcontent.append hend)

/-- **An attachment** comes behind the others. -/
lemma quiet_attachment (h : Inside pctx n stack m (.message path)) (hn : n.marker.HasChildren)
    (hm : m.message? path = some x) (hfew : x.pattachments.length < 0x8000)
    {a : TpropvalArray × Option MessageContent} (hl : PlainList true a.1)
    (ha : ∀ y, a.2 = some y → Fills y ∧ PlainList false y.proplist) :
    Quiet pctx
      { pctx with pmsgctnt := some (m.put { x with pattachments := x.pattachments ++ [a] } path) }
      (attachmentEvents a) := by
  obtain ⟨l, emb⟩ := a
  obtain ⟨m₁, hm₁⟩ : ∃ m₁,
      m₁ = m.put { x with pattachments := x.pattachments ++ [([], none)] } path := ⟨_, rfl⟩
  have hx₁ : m₁.message? path = some { x with pattachments := x.pattachments ++ [([], none)] } := by
    rw [hm₁, MessageContent.message?_put hm]
  have hopen (ans : Answers) (hans : Grants ans) : exec pctx (.marker .newAttach, ans) =
      some (true, { pctx with pmsgctnt := some m₁ }.push .newAttach
        (.pelement (.attachment path x.pattachments.length)), []) := by
    have := hans.memory
    rw [h.exec_marker]
    simp only [enter, newAttach]
    rw [if_neg (by simp [h.takesChild hn]), if_neg (by simp [h.inMemory]), if_neg (by omega),
      h.lastMessage hm, Option.bind_some]
    dsimp only
    rw [if_neg (by omega), if_neg (by omega), hm₁]
  have hinside : Inside ({ pctx with pmsgctnt := some m₁ }.push .newAttach
      (.pelement (.attachment path x.pattachments.length))) _ _ m₁ _ :=
    h.push (by simp [Marker.HasProps])
  have hlist : m₁.proplist? (.attachment path x.pattachments.length) = some [] := by
    simp [MessageContent.proplist?, hx₁]
  have hprops := hinside.quiet_propvals hlist hl.plain fun _ => rfl
  rw [setAll_nil hl] at hprops
  obtain ⟨m₂, hm₂⟩ : ∃ m₂,
      m₂ = m.put { x with pattachments := x.pattachments ++ [(l, none)] } path := ⟨_, rfl⟩
  have hx₂ : m₂.message? path = some { x with pattachments := x.pattachments ++ [(l, none)] } := by
    rw [hm₂, MessageContent.message?_put hm]
  have hset : m₁.setProplist l (.attachment path x.pattachments.length) = m₂ := by
    simp only [MessageContent.setProplist, hx₁]
    rw [hm₁, MessageContent.put_put hm, hm₂]
    simp [List.modify_eq_set_getElem?]
  rw [hset] at hprops
  have hembedded : Quiet { ({ pctx with pmsgctnt := some m₁ }.push .newAttach
      (.pelement (.attachment path x.pattachments.length))) with pmsgctnt := some m₂ }
      { ({ pctx with pmsgctnt := some m₁ }.push .newAttach
      (.pelement (.attachment path x.pattachments.length))) with
        pmsgctnt := some (m.put { x with pattachments := x.pattachments ++ [(l, emb)] } path) }
      (embeddedEvents emb) := by
    cases emb with
    | none =>
      rw [← hm₂]
      exact .nil
    | some y =>
      have hy := ha y rfl
      have hfill := (hinside.content' m₂).quiet_embedded rfl hx₂ hy.1 hy.2
      rw [hm₂, MessageContent.put_put hm] at hfill
      rw [hm₂]
      exact hfill
  have hend := (hinside.content' (m.put { x with
    pattachments := x.pattachments ++ [(l, emb)] } path)).quiet_end (.inr (.inl ⟨rfl, rfl⟩))
  rw [← h.stack] at hend
  exact .cons hopen (hprops.append (hembedded.append hend))

/-- Attachments, one after another. -/
lemma quiet_attachments (h : Inside pctx n stack m (.message path)) (hn : n.marker.HasChildren)
    (hm : m.message? path = some x) {as : List (TpropvalArray × Option MessageContent)}
    (hl : ∀ a ∈ as, PlainList true a.1)
    (has : ∀ a ∈ as, ∀ y, a.2 = some y → Fills y ∧ PlainList false y.proplist)
    (hfew : x.pattachments.length + as.length ≤ 0x8000) :
    Quiet pctx
      { pctx with pmsgctnt := some (m.put { x with pattachments := x.pattachments ++ as } path) }
      (attachmentsEvents as) := by
  induction as generalizing pctx m x with
  | nil =>
    have hself : { pctx with
        pmsgctnt := some (m.put { x with pattachments := x.pattachments ++ [] } path) } = pctx := by
      rw [List.append_nil, MessageContent.eta, MessageContent.put_self hm, ← h.content]
    rw [hself]
    exact .nil
  | cons a as ih =>
    rw [List.length_cons] at hfew
    have hfirst := h.quiet_attachment hn hm (by omega) (hl a List.mem_cons_self)
      (has a List.mem_cons_self)
    have hrest := ih (h.content' (m.put { x with pattachments := x.pattachments ++ [a] } path))
      (MessageContent.message?_put hm) (fun a ha => hl a (List.mem_cons_of_mem _ ha))
      (fun a ha => has a (List.mem_cons_of_mem _ ha))
      (by simp only [List.length_append, List.length_singleton]; omega)
    rw [MessageContent.put_put hm] at hrest
    simp only [List.append_assoc, List.singleton_append] at hrest
    exact hfirst.append hrest

end Inside

lemma Sendable.plain (h : Sendable m) : PlainList false m.proplist := by
  cases h with
  | mk hproplist _ _ _ _ _ => exact hproplist

/-- Messages of any depth. -/
lemma Sendable.fills (h : Sendable m) : Fills m := by
  induction h with
  | @mk ps rs as hproplist hprcpts hfew hattachments hfewAttachments hembedded ih =>
    refine ⟨fun {pctx n stack m path l} hinside hn hm => ?_⟩
    have hlist : m.proplist? (.message path) = some l := by simp [MessageContent.proplist?, hm]
    have hprops := hinside.quiet_propvals hlist hproplist.plain (by simp)
    rw [MessageContent.put_setProplist_message hm] at hprops
    have hm₁ := MessageContent.message?_put hm (x := ⟨setAll l ps, [], []⟩)
    have hrecipients := (hinside.content' _).quiet_recipients hn hm₁ hprcpts (by simpa using hfew)
    rw [MessageContent.put_put hm] at hrecipients
    have hm₂ := MessageContent.message?_put hm (x := ⟨setAll l ps, [] ++ rs, []⟩)
    have hattached := (hinside.content' _).quiet_attachments hn hm₂ hattachments
      (fun a ha y hy => ⟨ih a ha y hy, (hembedded a ha y hy).plain⟩)
      (by simpa using hfewAttachments)
    rw [MessageContent.put_put hm] at hattached
    exact hprops.append (hrecipients.append hattached)

/-! ### Messages -/

/-- The message that is written to the store. -/
def received (m : MessageContent) : MessageContent :=
  ⟨setAll [⟨propTagAssociated, [if isAssociated m.proplist then 1 else 0]⟩] m.proplist, m.prcpts,
    m.pattachments⟩

/-- Where a message may begin: in a folder, or in the list of messages that is uploaded. -/
structure Between (pctx : FastupctxObject) : Prop where
  folders : Folders pctx.rootElement pctx.markerStack
  takes : takesMessage pctx = true
  noList : pctx.pproplist = none
  noMessage : pctx.pmsgctnt = none

lemma Between.byInstance (h : Between pctx) : pctx.byInstance = false := by
  have htakes := h.takes
  unfold takesMessage at htakes
  split at htakes <;> simp_all [FastupctxObject.byInstance]

/-- The state behind the marker of a message. -/
def opened (pctx : FastupctxObject) (proplist : TpropvalArray) : FastupctxObject :=
  { pctx with pmsgctnt := some ⟨[⟨propTagAssociated,
    [if isAssociated proplist then 1 else 0]⟩], [], []⟩ }.push (messageMarker proplist)
      (.pelement (.message []))

lemma messageMarker_cases (l : TpropvalArray) :
    messageMarker l = .startMessage ∨ messageMarker l = .startFaiMsg := by
  unfold messageMarker
  split_ifs <;> simp

lemma Between.exec_open (h : Between pctx) (hans : Grants ans) (l : TpropvalArray) :
    exec pctx (.marker (messageMarker l), ans) = some (true, opened pctx l, []) := by
  have hmem := hans.memory
  have hsettled : Settled pctx := .folder h.byInstance h.folders h.noList h.noMessage
  have henter : enter ans pctx (messageMarker l) = startMessage ans pctx (messageMarker l) := by
    rcases messageMarker_cases l with hl | hl <;> rw [hl] <;> rfl
  have hflag : (messageMarker l = .startFaiMsg) ↔ isAssociated l = true := by
    unfold messageMarker
    split_ifs with hl <;> simp [hl]
  change fastupctxObjectRecordMarker ans pctx (messageMarker l) = _
  unfold fastupctxObjectRecordMarker
  rw [settle_settled hsettled, Option.bind_some]
  change Option.map (fun o : Outcome => (o.1, o.2.1, [] ++ o.2.2)) (enter ans pctx _) = _
  rw [henter]
  unfold startMessage
  rw [if_neg (by simp [h.takes]), if_neg (by simp [h.noMessage]), if_neg (by omega),
    if_neg (by omega), if_neg (by omega)]
  have hset (p : TaggedPropval) : setPropval [] p (decide (4 < ans.mem)) = (true, [p]) := by
    simp [setPropval, getPropval, (by omega : 4 < ans.mem)]
  dsimp only
  rw [hset, if_neg (by omega), Option.map_some]
  simp only [hflag, List.append_nil]
  rfl

lemma Inside.exec_endMessage {folderId : ℕ} (h : Inside pctx n stack m (.message []))
    (hn : n.marker = .startMessage ∨ n.marker = .startFaiMsg)
    (hfolder : fastupctxObjectGetLastFolder pctx.pop = some folderId) (hans : Grants ans) :
    exec pctx (.marker .endMessage, ans) = some (true, { pctx.pop with pmsgctnt := none },
      (fastupctxObjectWriteMessage ans.save folderId m).2.2) := by
  have hmarker : ¬ (n.marker ≠ .startMessage ∧ n.marker ≠ .startFaiMsg) := by
    rcases hn with hn | hn <;> simp [hn]
  rw [h.exec_marker]
  simp only [enter, endMessage, h.stack, h.content]
  rw [if_neg hmarker, if_neg (by simp [h.element]), hfolder, Option.map_some,
    writeMessage_true hans.saves, if_pos rfl]

/-- **One message**: it is written as it has been sent, below the innermost folder. -/
lemma Between.message (h : Between pctx) (hm : Sendable m) {es : List (Event × Answers)}
    (hes : es.map Prod.fst = messageEvents m) (hall : ∀ e ∈ es, Grants e.2) :
    ∃ ans, Grants ans ∧ execAll pctx es = some (pctx, (fastupctxObjectWriteMessage ans.save
      (nearestFolder pctx.pobject pctx.markerStack) (received m)).2.2) := by
  obtain ⟨⟨first, ans₁⟩, es', rfl, rfl, hes'⟩ := List.map_eq_cons_iff.mp hes
  obtain ⟨es₁, es₂, rfl, h₁, h₂⟩ := List.map_eq_append_iff.mp hes'
  obtain ⟨⟨last, ans⟩, es₃, rfl, rfl, hes₃⟩ := List.map_eq_cons_iff.mp h₂
  obtain rfl := List.map_eq_nil_iff.mp hes₃
  have hans₁ : Grants ans₁ := hall (.marker (messageMarker m.proplist), ans₁) (by simp)
  have hans : Grants ans := hall (.marker .endMessage, ans) (by simp)
  refine ⟨ans, hans, ?_⟩
  have hinside : Inside (opened pctx m.proplist) ⟨messageMarker m.proplist, .pelement (.message [])⟩
      pctx.markerStack ⟨[⟨propTagAssociated, [if isAssociated m.proplist then 1 else 0]⟩], [], []⟩
      (.message []) := by
    refine ⟨rfl, rfl, rfl, ?_, h.noList, h.byInstance⟩
    rcases messageMarker_cases m.proplist with hl | hl <;> simp [hl, Marker.HasProps]
  have hchildren : (messageMarker m.proplist).HasChildren := by
    rcases messageMarker_cases m.proplist with hl | hl <;> simp [hl, Marker.HasChildren]
  have hcontent := (hm.fills.quiet hinside hchildren rfl).run es₁ h₁ fun e he =>
    hall e (by simp [he])
  have hfolder : fastupctxObjectGetLastFolder
      ({ opened pctx m.proplist with pmsgctnt := some (received m) } : FastupctxObject).pop =
        some (nearestFolder pctx.pobject pctx.markerStack) := h.folders.nearest
  have hend := (hinside.content' (received m)).exec_endMessage (messageMarker_cases m.proplist)
    hfolder hans
  have hstate : { ({ opened pctx m.proplist with pmsgctnt := some (received m) } :
      FastupctxObject).pop with pmsgctnt := none } = pctx := by
    rw [← h.noMessage]
    rfl
  rw [hstate] at hend
  rw [execAll, h.exec_open hans₁]
  dsimp only
  rw [execAll_append hcontent]
  change Option.map _ (Option.map _ (execAll { opened pctx m.proplist with
    pmsgctnt := some (received m) } [(.marker .endMessage, ans)])) = _
  simp [execAll, hend]

/-! ### What the store gets -/

end SteepSystem.Fastupctx
