import SteepSystem.Lib.Runs
import SteepSystem.RopProcessor.Session

/-!
Runs of the server: any number of sessions, and any interleaving of their calls. Every state of
a run whose calls fit is consistent. One call that does not fit is a release of a node with an
upload context below it: the context goes, and the counter stays.
-/

namespace SteepSystem.RopProcessor

open SteepSystem.Lib SteepSystem.Lib.Runs
open scoped List

variable {getDir : ℕ → String}

/-- The live items of all sessions. -/
def World.items (w : World) : List LogonItem := w.sessions.flatMap HandleData.items

/-- How many live logons are on a directory. -/
def World.logonsOn (getDir : ℕ → String) (w : World) (dir : String) : ℕ :=
  w.items.countP fun it => it.dir getDir == some dir

/-- What is to hold in every state. -/
structure Consistent (getDir : ℕ → String) (w : World) : Prop where
  table : ∀ it ∈ w.items, it.phash.items ~ it.nodes.map ObjectNode.entry ∧
    ∃ root, it.tree.root.rootValue = some root ∧ it.phash.query root.handle = some root.addr
  slots : ∀ s ∈ w.sessions, ∀ i, s.plogmap i = .null ∨ ∃ it ∈ w.items, s.plogmap i = .item it
  upctx : ∀ s ∈ w.sessions, s.upctxRef = s.upctxs
  refs : ∀ dir, w.globals.logonHash.query dir =
    if w.logonsOn getDir dir = 0 then none else some (w.logonsOn getDir dir)

/-- Releasing a handle of any session takes out its node and the nodes below it, and leaves the
other slots and the other sessions as they are. -/
def ReleasesExactly (getDir : ℕ → String) (w : World) : Prop :=
  ∀ k s i it, w.sessions[k]? = some s → s.plogmap i = .item it →
    ∀ n ∈ it.nodes, n.handle < 0x7FFFFFFF →
    ∃ w' s', exec getDir w (.releaseObjectHandle k i n.handle) = some w' ∧
      w'.sessions = w.sessions.set k s' ∧ Released s s' i it n

/-- The calls that leave the state consistent. A call that is made on a session without the
branches below is one of them. -/
def Fits (w : World) : Call → Prop
  | .createLogmap => True
  | .createLogonItem k i _ hashed numbered _ =>
    ∃ s, w.sessions[k]? = some s ∧ CreateFits w.globals s i hashed numbered
  | .addObjectHandle k i parentHandle _ _ numbered grown =>
    ∃ s, w.sessions[k]? = some s ∧ AddFits w.globals s i parentHandle numbered grown
  | .releaseObjectHandle k i objHandle =>
    ∃ s, w.sessions[k]? = some s ∧ ∀ it, s.plogmap i = .item it →
      ∀ n ∈ it.nodes, n.handle = objHandle → n.handle < 0x7FFFFFFF → it.upctxsBelow n.addr = 0
  | .releaseLogmap k => k < w.sessions.length

structure Inv (getDir : ℕ → String) (w : World) : Prop where
  coherent : Coherent getDir w.globals w.items
  noDangling : ∀ s ∈ w.sessions, s.NoDangling
  drift : ∀ s ∈ w.sessions, s.drift = 0

lemma HandleData.item_mem {s : HandleData} {i : Fin 256} {it : LogonItem}
    (h : s.plogmap i = .item it) : it ∈ s.items :=
  List.mem_flatMap.mpr ⟨i, List.mem_finRange i, by simp [h, Slot.items]⟩

lemma Inv.consistent {w : World} (h : Inv getDir w) : Consistent getDir w where
  table it hit := by
    have hv := h.coherent.valid it hit
    obtain ⟨v, hroot, hmem, -⟩ := hv.dir_eq getDir
    exact ⟨hv.table, v, hroot, hv.query_eq_some_iff.mpr ⟨v, hmem, rfl, rfl⟩⟩
  slots s hs i := by
    cases hi : s.plogmap i with
    | null => exact .inl rfl
    | dangling => exact absurd hi (h.noDangling s hs i)
    | item it =>
      exact .inr ⟨it, List.mem_flatMap.mpr ⟨s, hs, HandleData.item_mem hi⟩, rfl⟩
  upctx s hs := by
    have := h.drift s hs
    unfold HandleData.drift at this
    omega
  refs dir := by
    have hcount : w.logonsOn getDir dir =
        (w.items.filterMap (LogonItem.dir getDir)).count dir := List.count_filterMap.symm
    rw [hcount]
    exact h.coherent.refs.query dir

lemma inv_init (contextNum averageHandles : ℕ) :
    Inv getDir (World.init contextNum averageHandles) where
  coherent :=
    { valid := by simp [World.init, World.items]
      addrs := by simp [World.init, World.items]
      refs := HashTable.counts_init _
      capacity := Nat.mul_comm _ _
      logitems := ⟨Nat.zero_le _, Nat.zero_le _⟩
      handles := ⟨Nat.zero_le _, Nat.zero_le _⟩ }
  noDangling := by simp [World.init]
  drift := by simp [World.init]

section Session

variable {w : World} {k : ℕ} {s : HandleData}

/-- One session apart from the others, which stay when it is replaced. -/
lemma exists_others (hk : w.sessions[k]? = some s) :
    ∃ rest, w.items ~ s.items ++ rest ∧
      (∀ globals s', (⟨globals, w.sessions.set k s'⟩ : World).items ~ s'.items ++ rest) ∧
      ∀ globals, (⟨globals, w.sessions.eraseIdx k⟩ : World).items = rest := by
  obtain ⟨hlt, hget⟩ := List.getElem?_eq_some_iff.mp hk
  refine ⟨(w.sessions.eraseIdx k).flatMap HandleData.items, ?_, fun _ s' => ?_, fun _ => rfl⟩
  · have := (List.getElem_cons_eraseIdx_perm hlt).symm.flatMap_right HandleData.items
    rwa [hget, List.flatMap_cons] at this
  · exact (List.set_perm_cons_eraseIdx hlt s').flatMap_right HandleData.items

/-- A call in one session that keeps the session and the shared tables in step. -/
lemma Inv.set (h : Inv getDir w) (hk : w.sessions[k]? = some s) {rest : List LogonItem}
    (hset : ∀ globals s', (⟨globals, w.sessions.set k s'⟩ : World).items ~ s'.items ++ rest)
    {globals : Globals} {s' : HandleData} (hcoh : Coherent getDir globals (s'.items ++ rest))
    (hs : s'.NoDangling) (hdrift : s'.drift = s.drift) :
    Inv getDir ⟨globals, w.sessions.set k s'⟩ where
  coherent := hcoh.perm (hset _ _).symm
  noDangling u hu := by
    rcases List.mem_or_eq_of_mem_set hu with hu | rfl
    · exact h.noDangling u hu
    · exact hs
  drift u hu := by
    rcases List.mem_or_eq_of_mem_set hu with hu | rfl
    · exact h.drift u hu
    · rw [hdrift]
      exact h.drift s (List.mem_of_getElem? hk)

/-- What `Inv` says of one session and the rest. -/
lemma Inv.session (h : Inv getDir w) (hk : w.sessions[k]? = some s) :
    s.NoDangling ∧ ∃ rest, Coherent getDir w.globals (s.items ++ rest) ∧
      (∀ globals s', (⟨globals, w.sessions.set k s'⟩ : World).items ~ s'.items ++ rest) ∧
      ∀ globals, (⟨globals, w.sessions.eraseIdx k⟩ : World).items = rest := by
  obtain ⟨rest, hitems, hset, herase⟩ := exists_others hk
  exact ⟨h.noDangling s (List.mem_of_getElem? hk), rest, h.coherent.perm hitems, hset, herase⟩

end Session

/-- **One call.** A fitting call has a defined effect and keeps the invariant. -/
theorem exec_inv {w : World} (h : Inv getDir w) {call : Call} (hfits : Fits w call) :
    ∃ w', exec getDir w call = some w' ∧ Inv getDir w' := by
  cases call with
  | createLogmap =>
    refine ⟨_, rfl, ?_⟩
    cases libBufferGet w.globals.logmapAllocator with
    | none => exact h
    | some pool =>
      have hitems : (⟨{ w.globals with logmapAllocator := pool },
          w.sessions ++ [.init]⟩ : World).items = w.items := by
        rw [World.items, List.flatMap_append, List.flatMap_singleton, HandleData.items_init,
          List.append_nil, World.items]
      constructor
      · rw [hitems]
        have := h.coherent
        exact ⟨this.valid, this.addrs, this.refs, this.capacity, this.logitems, this.handles⟩
      · intro u hu
        rcases List.mem_append.mp hu with hu | hu
        · exact h.noDangling u hu
        · rw [List.mem_singleton.mp hu]
          exact fun i => Slot.noConfusion
      · intro u hu
        rcases List.mem_append.mp hu with hu | hu
        · exact h.drift u hu
        · rw [List.mem_singleton.mp hu, HandleData.drift, HandleData.upctxs,
            HandleData.items_init]
          rfl
  | createLogonItem k i plogon hashed numbered grown =>
    obtain ⟨s, hk, hfits⟩ := hfits
    obtain ⟨hs, rest, hcoh, hset, -⟩ := h.session hk
    obtain ⟨code, g, s', hres, hcoh', hs', hdrift⟩ :=
      createLogonItem_spec hcoh hs plogon grown hfits
    exact ⟨⟨g, w.sessions.set k s'⟩, by simp [exec, hk, hres], h.set hk hset hcoh' hs' hdrift⟩
  | addObjectHandle k i parentHandle type pobject numbered grown =>
    obtain ⟨s, hk, hfits⟩ := hfits
    obtain ⟨hs, rest, hcoh, hset, -⟩ := h.session hk
    obtain ⟨code, g, s', hres, hcoh', hs', hdrift⟩ :=
      addObjectHandle_spec hcoh hs type pobject hfits
    exact ⟨_, by simp [exec, hk, hres], h.set hk hset hcoh' hs' hdrift⟩
  | releaseObjectHandle k i objHandle =>
    obtain ⟨s, hk, hfits⟩ := hfits
    obtain ⟨hs, rest, hcoh, hset, -⟩ := h.session hk
    by_cases hno : ∀ it, s.plogmap i = .item it → ∀ n ∈ it.nodes, n.handle = objHandle →
        ¬ n.handle < 0x7FFFFFFF
    · have hres := releaseObjectHandle_ignored hcoh hs hno
      exact ⟨_, by simp [exec, hk, hres], h.set hk hset hcoh hs rfl⟩
    · push Not at hno
      obtain ⟨it, hi, n, hn, rfl, hlt⟩ := hno
      obtain ⟨g, s', hres, hcoh', hs', hdrift, -⟩ := releaseObjectHandle_spec hcoh hs hi hn hlt
      rw [hfits it hi n hn rfl hlt, Nat.cast_zero, add_zero] at hdrift
      exact ⟨_, by simp [exec, hk, hres], h.set hk hset hcoh' hs' hdrift⟩
  | releaseLogmap k =>
    obtain ⟨s, hk⟩ : ∃ s, w.sessions[k]? = some s := ⟨_, List.getElem?_eq_getElem hfits⟩
    obtain ⟨hs, rest, hcoh, -, herase⟩ := h.session hk
    obtain ⟨g, hres, hcoh'⟩ := releaseLogmap_spec hcoh hs
    refine ⟨_, by simp [exec, hk, hres]; rfl, ?_, ?_, ?_⟩
    · rw [herase]
      exact hcoh'
    · exact fun u hu => h.noDangling u (List.mem_of_mem_eraseIdx hu)
    · exact fun u hu => h.drift u (List.mem_of_mem_eraseIdx hu)

lemma Inv.releasesExactly {w : World} (h : Inv getDir w) : ReleasesExactly getDir w := by
  intro k s i it hk hi n hn hlt
  obtain ⟨hs, rest, hcoh, -⟩ := h.session hk
  obtain ⟨g, s', hres, -, -, -, hreleased⟩ := releaseObjectHandle_spec hcoh hs hi hn hlt
  exact ⟨⟨g, w.sessions.set k s'⟩, s', by simp [exec, hk, hres], rfl, hreleased⟩

/-- **Every run whose calls fit.** The state it ends in is consistent, a release there takes
out exactly a node and what is below it, and every call that fits there has a defined
effect. -/
theorem consistent_of_run (getDir : ℕ → String) (contextNum averageHandles : ℕ)
    {calls : List Call} {w : World}
    (h : Run Fits (fun w call w' => exec getDir w call = some w')
      (World.init contextNum averageHandles) calls w) :
    Consistent getDir w ∧ ReleasesExactly getDir w ∧
      ∀ call, Fits w call → (exec getDir w call).isSome := by
  have hinv : Inv getDir w := by
    refine h.invariant (fun w call w' hw hfits hstep => ?_) (inv_init _ _)
    obtain ⟨u, hu, hinv⟩ := exec_inv hw hfits
    exact Option.some.inj (hu.symm.trans hstep) ▸ hinv
  refine ⟨hinv.consistent, hinv.releasesExactly, fun call hfits => ?_⟩
  obtain ⟨u, hu, -⟩ := exec_inv hinv hfits
  rw [hu]
  rfl

/-- A logon with a folder and an upload context under it; the folder goes, the context stays. -/
theorem consistent_of_run_folder :
    ∃ w, Run Fits (fun w call w' => exec (fun _ => "maildir") w call = some w') (World.init 1 10)
        [.createLogmap, .createLogonItem 0 3 0 true true true,
          .addObjectHandle 0 3 0 .folder 1 true true, .addObjectHandle 0 3 0 .icsupctx 2 true true,
          .releaseObjectHandle 0 3 1] w ∧
      w.sessions.map HandleData.upctxRef = [1] ∧ w.logonsOn (fun _ => "maildir") "maildir" = 1 ∧
      Consistent (fun _ => "maildir") w := by
  obtain ⟨w, hrun, hsample⟩ :
      ∃ w, Run Fits (fun w call w' => exec (fun _ => "maildir") w call = some w') (World.init 1 10)
        [.createLogmap, .createLogonItem 0 3 0 true true true,
          .addObjectHandle 0 3 0 .folder 1 true true, .addObjectHandle 0 3 0 .icsupctx 2 true true,
          .releaseObjectHandle 0 3 1] w ∧
      w.sessions.map HandleData.upctxRef = [1] ∧
        w.logonsOn (fun _ => "maildir") "maildir" = 1 := by
    refine ⟨_, .cons trivial rfl (.cons ⟨_, rfl, ?_⟩ rfl (.cons ⟨_, rfl, ?_⟩ rfl
      (.cons ⟨_, rfl, ?_⟩ rfl (.cons ⟨_, rfl, ?_⟩ rfl (.nil _))))), by decide +kernel⟩
    · exact ⟨fun it hi => Slot.noConfusion hi, fun _ _ => by decide +kernel⟩
    · intro it pparent hi _ _ _ _ _
      cases hi
      exact ⟨by decide +kernel, by decide +kernel⟩
    · intro it pparent hi _ _ _ _ _
      cases hi
      exact ⟨by decide +kernel, by decide +kernel⟩
    · intro it hi
      cases hi
      decide +kernel
  exact ⟨w, hrun, hsample.1, hsample.2, (consistent_of_run _ 1 10 hrun).1⟩

/-- **The counter after a folder is released.** An upload context is opened under the folder
with handle 1, and goes with it; the session still counts one. -/
theorem not_consistent_of_run : ¬ ∀ (getDir : ℕ → String) (contextNum averageHandles : ℕ)
    (calls : List Call) (w : World),
    Run (fun _ _ => True) (fun w call w' => exec getDir w call = some w')
      (World.init contextNum averageHandles) calls w → Consistent getDir w := by
  intro h
  have hrun := h (fun _ => "maildir") 1 10
    [.createLogmap, .createLogonItem 0 0 0 true true true,
      .addObjectHandle 0 0 0 .folder 1 true true, .addObjectHandle 0 0 1 .icsupctx 2 true true,
      .releaseObjectHandle 0 0 1] _
    (.cons trivial rfl (.cons trivial rfl (.cons trivial rfl (.cons trivial rfl
      (.cons trivial rfl (.nil _))))))
  exact absurd (hrun.upctx _ (List.mem_singleton.mpr rfl)) (by decide +kernel)

end SteepSystem.RopProcessor
