import SteepSystem.Fastupctx.Record

/-!
How markers nest, and what a property list and a message under construction belong to: the
shapes a stack can have under each root element, with the element that is innermost.
-/

namespace SteepSystem.Fastupctx

open SteepSystem.Lib.Bytes

/-- Folders have subfolders below these roots. -/
def RootElement.HasSubfolders (root : RootElement) : Prop :=
  root = .topFolder ∨ root = .folderContent

/-- Open folders that have been made, and the marker of the folder uploaded to. -/
inductive Folders (root : RootElement) : List MarkerNode → Prop
  | root : Folders root []
  | top : root = .topFolder → Folders root [⟨.startTopFld, .unset⟩]
  | sub {stack : List MarkerNode} {id : ℕ} :
      root.HasSubfolders → Folders root stack → Folders root (⟨.startSubFld, .folderId id⟩ :: stack)

/-- An open element of a message under construction, with the stack it is innermost on. -/
inductive Elements (root : RootElement) : Element → List MarkerNode → Prop
  | message {stack : List MarkerNode} {marker : Marker} :
      marker = .startMessage ∨ marker = .startFaiMsg → Folders root stack →
      (root = .topFolder → stack ≠ []) →
      Elements root (.message []) (⟨marker, .pelement (.message [])⟩ :: stack)
  | recipient {stack : List MarkerNode} {path : List ℕ} {j : ℕ} :
      Elements root (.message path) stack →
      Elements root (.recipient path j) (⟨.startRecip, .pelement (.recipient path j)⟩ :: stack)
  | attachment {stack : List MarkerNode} {path : List ℕ} {i : ℕ} :
      Elements root (.message path) stack →
      Elements root (.attachment path i) (⟨.newAttach, .pelement (.attachment path i)⟩ :: stack)
  | embedded {stack : List MarkerNode} {path : List ℕ} {i : ℕ} :
      Elements root (.attachment path i) stack →
      Elements root (.message (path ++ [i]))
        (⟨.startEmbed, .pelement (.message (path ++ [i]))⟩ :: stack)

/-- An instance in the store. -/
inductive Instance
  | message (id : ℕ)
  | attachment (id : ℕ)

/-- An open instance, with the stack it is innermost on. -/
inductive Instances (root : RootElement) (pobject : ℕ) : Instance → List MarkerNode → Prop
  | message : root = .messageContent → Instances root pobject (.message pobject) []
  | attachment : root = .attachmentContent → Instances root pobject (.attachment pobject) []
  | new {stack : List MarkerNode} {id new : ℕ} :
      Instances root pobject (.message id) stack →
      Instances root pobject (.attachment new) (⟨.newAttach, .instanceId new⟩ :: stack)
  | embedded {stack : List MarkerNode} {id new : ℕ} :
      Instances root pobject (.attachment id) stack →
      Instances root pobject (.message new) (⟨.startEmbed, .instanceId new⟩ :: stack)

/-- No folder is waiting for its properties: a list is there only for a recipient of an
instance, and a message only below its marker. -/
inductive Settled (pctx : FastupctxObject) : Prop
  | folder : pctx.byInstance = false → Folders pctx.rootElement pctx.markerStack →
      pctx.pproplist = none → pctx.pmsgctnt = none → Settled pctx
  | element {e : Element} {m : MessageContent} : pctx.byInstance = false →
      Elements pctx.rootElement e pctx.markerStack → pctx.pproplist = none →
      pctx.pmsgctnt = some m → (m.proplist? e).isSome → Settled pctx
  | instances {i : Instance} : Instances pctx.rootElement pctx.pobject i pctx.markerStack →
      pctx.pproplist = none → pctx.pmsgctnt = none → Settled pctx
  | recipient {stack : List MarkerNode} {id : ℕ} {l : TpropvalArray} :
      pctx.markerStack = ⟨.startRecip, .instanceId id⟩ :: stack →
      Instances pctx.rootElement pctx.pobject (.message id) stack →
      pctx.pproplist = some l → pctx.pmsgctnt = none → Settled pctx

/-- The innermost element is the folder uploaded to. -/
def AtTop (root : RootElement) (stack : List MarkerNode) : Prop :=
  (root = .folderContent ∧ stack = []) ∨
    (root = .topFolder ∧ stack = [⟨.startTopFld, .unset⟩])

/-- **A stack that nests properly, with the list and the message of its innermost element.** -/
inductive Coherent (pctx : FastupctxObject) : Prop
  | settled : Settled pctx → Coherent pctx
  | top {l : TpropvalArray} : AtTop pctx.rootElement pctx.markerStack →
      pctx.pproplist = some l → pctx.pmsgctnt = none → Coherent pctx
  | subfolder {stack : List MarkerNode} {l : TpropvalArray} :
      pctx.markerStack = ⟨.startSubFld, .unset⟩ :: stack → pctx.rootElement.HasSubfolders →
      Folders pctx.rootElement stack → pctx.pproplist = some l → pctx.pmsgctnt = none →
      Coherent pctx

/-- The nearest enclosing folder that has been made. -/
def nearestFolder (pobject : ℕ) : List MarkerNode → ℕ
  | [] => pobject
  | ⟨.startSubFld, .folderId id⟩ :: _ => id
  | ⟨.startTopFld, _⟩ :: _ => pobject
  | _ :: stack => nearestFolder pobject stack

/-- What is made goes below the nearest enclosing folder. -/
def Placed (pctx : FastupctxObject) : StoreCall → Prop
  | .createFolder l =>
    getPropval l propTagParentFolderId = some (le 8 (nearestFolder pctx.pobject pctx.markerStack))
  | .writeMessage folderId _ => folderId = nearestFolder pctx.pobject pctx.markerStack
  | _ => True

/-- What an event does to a coherent upload. -/
structure Keeps (pctx : FastupctxObject) (o : Outcome) : Prop where
  coherent : Coherent o.2.1
  root : o.2.1.rootElement = pctx.rootElement
  object : o.2.1.pobject = pctx.pobject
  placed : ∀ c ∈ o.2.2, Placed pctx c

variable {pctx : FastupctxObject} {root : RootElement} {pobject : ℕ} {stack : List MarkerNode}

lemma keeps_refused (h : Coherent pctx) : Keeps pctx (false, pctx, []) :=
  ⟨h, rfl, rfl, fun _ hc => absurd hc List.not_mem_nil⟩

/-! ### Which markers are innermost -/

lemma Folders.nearest (h : Folders root stack) :
    lastOf .startSubFld MarkerNode.folderId? pobject stack = some (nearestFolder pobject stack) := by
  induction h with
  | root => rfl
  | top _ => rfl
  | sub _ _ _ => rfl

lemma Elements.nearest {e : Element} (h : Elements root e stack) :
    lastOf .startSubFld MarkerNode.folderId? pobject stack = some (nearestFolder pobject stack) := by
  induction h with
  | message hmarker hfolders _ =>
    rcases hmarker with rfl | rfl
    · exact hfolders.nearest
    · exact hfolders.nearest
  | recipient _ ih => exact ih
  | attachment _ ih => exact ih
  | embedded _ ih => exact ih

/-- The instance of the innermost message is the one the last embedded message has. -/
lemma Instances.lastMessage {id : ℕ} (h : Instances root pobject (.message id) stack) :
    lastOf .startEmbed MarkerNode.instanceId? pobject stack = some id := by
  cases h with
  | message _ => rfl
  | embedded _ => rfl

lemma Instances.lastAttachment {id : ℕ} (h : Instances root pobject (.attachment id) stack) :
    lastOf .newAttach MarkerNode.instanceId? pobject stack = some id := by
  cases h with
  | attachment _ => rfl
  | new _ => rfl

lemma Instances.byInstance {i : Instance} (h : Instances root pobject i stack) :
    root = .messageContent ∨ root = .attachmentContent := by
  induction h with
  | message h => exact .inl h
  | attachment h => exact .inr h
  | new _ ih => exact ih
  | embedded _ ih => exact ih

/-- A folder's parent is read from its marker, unless that is the one of the folder uploaded
to. -/
lemma Folders.pendingParent (h : Folders pctx.rootElement stack)
    (htop : stack.head?.map (·.marker) ≠ some .startTopFld) :
    pendingParent pctx stack = some (nearestFolder pctx.pobject stack) := by
  cases h with
  | root => rfl
  | top _ => exact absurd rfl htop
  | sub _ _ => rfl

end SteepSystem.Fastupctx
