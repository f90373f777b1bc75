import SteepSystem.Lib.Runs

/-!
The notifications of one session of `exchange_emsmdb`: `emsmdb_interface_event_proc` appends them,
`emsmdb_interface_rpc_ext2` hands them out, and both wake the asynchronous waiter. Each step is a
critical section, or one access of a field that no lock protects.
-/

namespace SteepSystem.Emsmdb.Wakeup

open SteepSystem.Lib.Runs

/-- `woken`: since it was appended, the waiter has been woken. -/
structure Notification (α : Type) where
  data : α
  woken : Bool
  deriving DecidableEq

/-- Where the thread stands that has set `b_processing`. -/
inductive Rpc (α : Type)
  | idle
  /-- The user is another one, or the session has expired. -/
  | refused
  /-- In `rop_processor_proc`, perhaps with a notification in its hand. -/
  | running (hand : Option (Notification α))
  /-- `b_wakeup` is known. -/
  | checked (wakeup : Bool)
  deriving DecidableEq

/-- Where the thread stands that has set `b_occupied` in `emsmdb_interface_event_proc`. -/
inductive EventProc
  | away
  | occupying
  /-- With a notification behind the others; `b_processing` is still to be read. -/
  | appended
  /-- `notify_response_retrieve` has failed. -/
  | failed
  | read (processing : Bool)
  deriving DecidableEq

/-- `wakeups`: the threads that are on their way to `asyncemsmdb_interface_wakeup`. `reported`:
the last call that was completed has found the list not empty, and nothing was appended since. -/
structure Session (α : Type) where
  processing : Bool
  notifyList : List (Notification α)
  rpc : Rpc α
  event : EventProc
  wakeups : ℕ
  reported : Bool
  deriving DecidableEq

def maxNotifyResponseNum : ℕ := 128

/-- `merge`, `moveToTail`: what the merging functions do to the notification they find. -/
inductive Step (α : Type)
  | getHandleData (refused : Bool)
  | pull
  | discard
  | insertAsHead
  | check
  | putHandleData
  | getHandleNotifyList
  | merge (i : ℕ) (data : α)
  | moveToTail (i : ℕ)
  | append (data : α)
  | fail
  | giveUp
  | readProcessing
  | putHandleNotifyList
  | wakeup
  deriving DecidableEq

variable {α : Type}

def start : Session α :=
  { processing := false, notifyList := [], rpc := .idle, event := .away, wakeups := 0
    reported := false }

def wake (n : Notification α) : Notification α := { n with woken := true }

namespace Session

def step (s : Session α) : Step α → Option (Session α)
  | .getHandleData refused =>
    if s.processing then none
    else some { s with processing := true, rpc := if refused then .refused else .running none }
  | .pull =>
    match s.rpc, s.event, s.notifyList with
    | .running none, .away, n :: notifyList =>
      some { s with rpc := .running (some n), notifyList }
    | _, _, _ => none
  | .discard =>
    match s.rpc with
    | .running (some _) => some { s with rpc := .running none }
    | _ => none
  | .insertAsHead =>
    match s.rpc with
    | .running (some n) => some { s with rpc := .running none, notifyList := n :: s.notifyList }
    | _ => none
  | .check =>
    match s.rpc with
    | .running none => some { s with rpc := .checked !s.notifyList.isEmpty }
    | _ => none
  | .putHandleData =>
    match s.rpc with
    | .refused => some { s with rpc := .idle, processing := false, reported := false }
    | .checked wakeup =>
      some { s with
        rpc := .idle
        processing := false
        wakeups := s.wakeups + wakeup.toNat
        reported := wakeup }
    | _ => none
  | .getHandleNotifyList =>
    if s.event = .away then some { s with event := .occupying } else none
  | .merge i data =>
    if s.event = .occupying then
      some { s with event := .away, notifyList := s.notifyList.modify i ({ · with data }) }
    else none
  | .moveToTail i =>
    match s.event, s.notifyList[i]? with
    | .occupying, some n =>
      some { s with
        event := .appended
        notifyList := s.notifyList.eraseIdx i ++ [{ n with woken := false }]
        reported := false }
    | _, _ => none
  | .append data =>
    if s.event = .occupying ∧ s.notifyList.length < maxNotifyResponseNum then
      some { s with
        event := .appended
        notifyList := s.notifyList ++ [{ data, woken := false }]
        reported := false }
    else none
  | .fail => if s.event = .occupying then some { s with event := .failed } else none
  | .giveUp => if s.event = .occupying then some { s with event := .away } else none
  | .readProcessing =>
    if s.event = .appended ∨ s.event = .failed then some { s with event := .read s.processing }
    else none
  | .putHandleNotifyList =>
    match s.event with
    | .read processing =>
      some { s with event := .away, wakeups := s.wakeups + (!processing).toNat }
    | _ => none
  | .wakeup =>
    if 0 < s.wakeups then
      some { s with
        wakeups := s.wakeups - 1
        notifyList := s.notifyList.map wake
        rpc := match s.rpc with
          | .running (some n) => .running (some (wake n))
          | rpc => rpc }
    else none

/-- A thread is bound to wake the waiter. -/
def WakeupComing (s : Session α) : Prop :=
  0 < s.wakeups ∨ s.event = .appended ∨ s.event = .read false

/-- While the session is not processed, each pending notification is one that the waiter has been
woken for, or will be, or that the last call has reported. -/
def NoneLost (s : Session α) : Prop :=
  s.processing = false →
    ∀ n ∈ s.notifyList, n.woken = true ∨ s.WakeupComing ∨ s.reported = true

end Session

/-- The session is not read as processed, behind an append, by a thread whose notification the
processing one will not look for: it is refused, or it has found the list empty. -/
def Fits (s : Session α) : Step α → Prop
  | .readProcessing => s.event = .appended → s.rpc ≠ .refused ∧ s.rpc ≠ .checked false
  | _ => True

/-- The notifications that are pending or in the hand of the processing thread. -/
def held (s : Session α) : List (Notification α) :=
  match s.rpc with
  | .running (some n) => n :: s.notifyList
  | _ => s.notifyList

/-- The processing thread will look for pending notifications, or has found one. -/
def Rpc.Looks : Rpc α → Prop
  | .running _ | .checked true => True
  | _ => False

structure Inv (s : Session α) : Prop where
  processing : s.processing = true ↔ s.rpc ≠ .idle
  covered : ∀ n ∈ held s, n.woken = true ∨ s.WakeupComing ∨ s.rpc.Looks

variable {s t : Session α}

lemma mem_held {n : Notification α} (h : n ∈ s.notifyList) : n ∈ held s := by
  unfold held
  split
  · exact .tail _ h
  · exact h

/-- A step that hands out no new notification and keeps what is to come keeps the invariant. -/
lemma Inv.mono (h : Inv s) (hp : t.processing = true ↔ t.rpc ≠ .idle)
    (hheld : ∀ n ∈ held t, n.woken = true ∨ ∃ m ∈ held s, n.woken = m.woken)
    (hcome : s.WakeupComing → t.WakeupComing) (hlook : s.rpc.Looks → t.WakeupComing ∨ t.rpc.Looks) :
    Inv t := by
  refine ⟨hp, fun n hn => ?_⟩
  rcases hheld n hn with hw | ⟨m, hm, hnm⟩
  · exact .inl hw
  · rcases h.covered m hm with hw | hc | hl
    · exact .inl (hnm.trans hw)
    · exact .inr (.inl (hcome hc))
    · exact .inr (hlook hl)

lemma Inv.wakeup (h : Inv s) (hs : s.step .wakeup = some t) : Inv t := by
  simp only [Session.step] at hs
  split at hs <;> cases hs
  have hall : ∀ n ∈ s.notifyList.map wake, n.woken = true := by
    intro n hn
    obtain ⟨m, -, rfl⟩ := List.mem_map.mp hn
    rfl
  refine ⟨?_, fun n hn => .inl ?_⟩
  · rw [h.processing]
    rcases s.rpc with - | - | hand | b <;> simp
    cases hand <;> simp
  · unfold held at hn
    rcases hr : s.rpc with - | - | (- | m) | b <;> rw [hr] at hn <;> dsimp only at hn
    · exact hall n hn
    · exact hall n hn
    · exact hall n hn
    · rcases List.mem_cons.mp hn with rfl | hn
      · rfl
      · exact hall n hn
    · exact hall n hn

lemma Inv.putHandleData (h : Inv s) (hs : s.step .putHandleData = some t) : Inv t := by
  simp only [Session.step] at hs
  split at hs <;> cases hs
  · rename_i hrpc
    refine h.mono (by simp) ?_ id ?_
    · intro n hn
      exact .inr ⟨n, mem_held hn, rfl⟩
    · simp [hrpc, Rpc.Looks]
  · rename_i wakeup hrpc
    refine h.mono (by simp) ?_ ?_ ?_
    · intro n hn
      exact .inr ⟨n, mem_held hn, rfl⟩
    · rintro (hw | hc)
      · exact .inl (Nat.add_pos_left hw _)
      · exact .inr hc
    · intro hl
      cases wakeup
      · simp [hrpc, Rpc.Looks] at hl
      · exact .inl (.inl (Nat.succ_pos _))

/-- Other data in one of the notifications. -/
lemma exists_woken_modify {i : ℕ} {data : α} {n}
    (hn : n ∈ s.notifyList.modify i ({ · with data })) :
    ∃ m ∈ s.notifyList, n.woken = m.woken := by
  obtain ⟨j, hj, rfl⟩ := List.mem_iff_getElem.mp hn
  have hj' : j < s.notifyList.length := by simpa using hj
  refine ⟨s.notifyList[j], List.getElem_mem hj', ?_⟩
  rw [List.getElem_modify]
  split <;> rfl

lemma Inv.merge {i : ℕ} {data : α} (h : Inv s) (hs : s.step (.merge i data) = some t) :
    Inv t := by
  simp only [Session.step] at hs
  split at hs <;> cases hs
  rename_i hev
  refine h.mono h.processing ?_ ?_ .inr
  · intro n hn
    unfold held at hn
    split at hn
    · rename_i hr
      rcases List.mem_cons.mp hn with rfl | hn
      · exact .inr ⟨n, by simp [held, show s.rpc = .running (some n) from hr], rfl⟩
      · obtain ⟨k, hk, hnk⟩ := exists_woken_modify hn
        exact .inr ⟨k, mem_held hk, hnk⟩
    · obtain ⟨k, hk, hnk⟩ := exists_woken_modify hn
      exact .inr ⟨k, mem_held hk, hnk⟩
  · simp [Session.WakeupComing, hev]

/-- The notifying thread finds out whether the session is processed. -/
lemma Inv.readProcessing (h : Inv s) (hfits : Fits s (.readProcessing : Step α))
    (hs : s.step .readProcessing = some t) : Inv t := by
  simp only [Session.step] at hs
  split at hs <;> cases hs
  rename_i hev
  refine ⟨h.processing, fun n hn => ?_⟩
  by_cases hp : s.processing = true
  · rcases h.covered n hn with hw | (hw | happ | hread) | hl
    · exact .inl hw
    · exact .inr (.inl (.inl hw))
    · -- the processing thread is one that looks for pending notifications
      obtain ⟨hrefused, hchecked⟩ := hfits happ
      have hbusy := h.processing.mp hp
      refine .inr (.inr ?_)
      change s.rpc.Looks
      rcases hr : s.rpc with - | - | hand | (- | -)
      · exact absurd hr hbusy
      · exact absurd hr hrefused
      · trivial
      · exact absurd hr hchecked
      · trivial
    · rcases hev with hev | hev <;> simp [hev] at hread
    · exact .inr (.inr hl)
  · exact .inr (.inl (.inr (.inr (by simpa using hp))))

lemma Inv.step {i : Step α} (h : Inv s) (hfits : Fits s i) (hs : s.step i = some t) : Inv t := by
  cases i with
  | wakeup => exact h.wakeup hs
  | getHandleData refused =>
    simp only [Session.step] at hs
    split at hs
    · cases hs
    · rename_i hp
      cases hs
      have hidle : s.rpc = .idle := by
        by_contra hne
        exact hp (h.processing.mpr hne)
      refine h.mono ?_ ?_ id ?_
      · cases refused <;> simp
      · intro n hn
        refine .inr ⟨n, ?_, rfl⟩
        cases refused <;> simpa [held, hidle] using hn
      · simp [hidle, Rpc.Looks]
  | pull =>
    simp only [Session.step] at hs
    split at hs <;> cases hs
    rename_i n rest hrpc _ hlist
    refine h.mono ?_ ?_ id fun _ => .inr trivial
    · simpa [hrpc] using h.processing
    · intro m hm
      exact .inr ⟨m, by simpa [held, hrpc, hlist] using hm, rfl⟩
  | discard =>
    simp only [Session.step] at hs
    split at hs <;> cases hs
    rename_i n hrpc
    refine h.mono ?_ ?_ id fun _ => .inr trivial
    · simpa [hrpc] using h.processing
    · intro m hm
      exact .inr ⟨m, mem_held hm, rfl⟩
  | insertAsHead =>
    simp only [Session.step] at hs
    split at hs <;> cases hs
    rename_i n hrpc
    refine h.mono ?_ ?_ id fun _ => .inr trivial
    · simpa [hrpc] using h.processing
    · intro m hm
      exact .inr ⟨m, by simpa [held, hrpc] using hm, rfl⟩
  | check =>
    simp only [Session.step] at hs
    split at hs <;> cases hs
    rename_i hrpc
    refine ⟨by simpa [hrpc] using h.processing, fun n hn => .inr (.inr ?_)⟩
    have hne : s.notifyList.isEmpty = false := by
      have hn : n ∈ s.notifyList := hn
      cases hl : s.notifyList with
      | nil => simp [hl] at hn
      | cons => rfl
    simp [hne, Rpc.Looks]
  | putHandleData => exact h.putHandleData hs
  | getHandleNotifyList =>
    simp only [Session.step] at hs
    split at hs <;> cases hs
    rename_i hev
    refine h.mono h.processing (fun n hn => .inr ⟨n, hn, rfl⟩) ?_ .inr
    simp [Session.WakeupComing, hev]
  | merge i data => exact h.merge hs
  | moveToTail i =>
    simp only [Session.step] at hs
    split at hs <;> cases hs
    exact ⟨h.processing, fun _ _ => .inr (.inl (.inr (.inl rfl)))⟩
  | append data =>
    simp only [Session.step] at hs
    split at hs <;> cases hs
    exact ⟨h.processing, fun _ _ => .inr (.inl (.inr (.inl rfl)))⟩
  | fail =>
    simp only [Session.step] at hs
    split at hs <;> cases hs
    rename_i hev
    refine h.mono h.processing (fun n hn => .inr ⟨n, hn, rfl⟩) ?_ .inr
    simp [Session.WakeupComing, hev]
  | giveUp =>
    simp only [Session.step] at hs
    split at hs <;> cases hs
    rename_i hev
    refine h.mono h.processing (fun n hn => .inr ⟨n, hn, rfl⟩) ?_ .inr
    simp [Session.WakeupComing, hev]
  | readProcessing => exact h.readProcessing hfits hs
  | putHandleNotifyList =>
    simp only [Session.step] at hs
    split at hs <;> cases hs
    rename_i processing hev
    refine h.mono h.processing (fun n hn => .inr ⟨n, hn, rfl⟩) ?_ .inr
    rintro (hw | happ | hread)
    · exact .inl (Nat.add_pos_left hw _)
    · simp [hev] at happ
    · rw [hev] at hread
      cases hread
      exact .inl (Nat.succ_pos _)

/-- **While the session is not processed, no pending notification has lost its wake-up.** -/
theorem noneLost_of_run {steps : List (Step α)}
    (h : Run Fits (fun s i t => s.step i = some t) start steps s) : s.NoneLost := by
  have hinv : Inv s := by
    refine h.invariant (fun s i t hs hf hst => hs.step hf hst) ⟨by simp [start], ?_⟩
    simp [held, start]
  intro hp n hn
  have hidle : s.rpc = .idle := by
    by_contra hne
    simp [hinv.processing.mpr hne] at hp
  rcases hinv.covered n (mem_held hn) with hw | hc | hl
  · exact .inl hw
  · exact .inr (.inl hc)
  · simp [hidle, Rpc.Looks] at hl

theorem noneLost_of_run_append : ∃ s : Session ℕ, s.processing = false ∧
    s.notifyList = [{ data := 7, woken := true }] ∧ s.NoneLost := by
  have hrun : Run Fits (fun s i t => s.step i = some t) start
      [.getHandleData false, .getHandleNotifyList, .append 7, .readProcessing,
        .putHandleNotifyList, .check, .putHandleData, .wakeup]
      ({ processing := false, notifyList := [{ data := 7, woken := true }], rpc := .idle,
         event := .away, wakeups := 0, reported := true } : Session ℕ) := by
    refine .cons trivial rfl <| .cons trivial rfl <| .cons trivial rfl <| .cons ?_ rfl <|
      .cons trivial rfl <| .cons trivial rfl <| .cons trivial rfl <| .cons trivial rfl (.nil _)
    simp [Fits]
  exact ⟨_, rfl, rfl, noneLost_of_run hrun⟩

/-- The notification comes between the look at the list and the end of the processing. -/
theorem not_noneLost_of_run : ¬ ∀ (steps : List (Step ℕ)) (s : Session ℕ),
    Run (fun _ _ => True) (fun s i t => s.step i = some t) start steps s → s.NoneLost := by
  intro h
  have hrun : Run (fun _ _ => True) (fun s i t => s.step i = some t) start
      [.getHandleData false, .check, .getHandleNotifyList, .append 7, .readProcessing,
        .putHandleNotifyList, .putHandleData]
      ({ processing := false, notifyList := [{ data := 7, woken := false }], rpc := .idle,
         event := .away, wakeups := 0, reported := false } : Session ℕ) :=
    .cons trivial rfl <| .cons trivial rfl <| .cons trivial rfl <| .cons trivial rfl <|
      .cons trivial rfl <| .cons trivial rfl <| .cons trivial rfl (.nil _)
  have hlost := h _ _ hrun rfl _ (.head _)
  simp [Session.WakeupComing] at hlost

end SteepSystem.Emsmdb.Wakeup
