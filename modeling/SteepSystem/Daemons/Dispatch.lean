import SteepSystem.Lib.Runs

/-!
The accept thread and the pool threads of `SYSTEM_ADMIN/locker/main.c` and
`SYSTEM_ADMIN/timer/main.c`. The pending list and the condition have different mutexes, and a
pool thread looks at the list only after it has waited.
-/

namespace SteepSystem.Daemons.Dispatch

open SteepSystem.Lib.Runs

/-- A connection, by its socket. -/
abbrev Connection := ℕ

/-- Where a pool thread stands in `thread_work_func`. -/
inductive Worker
  /-- At `NEXT_LOOP`, on the way to `pthread_cond_wait`. -/
  | ready
  | waiting
  /-- Back from the wait, on the way to the pending list. -/
  | woken
  | serving (c : Connection)
  /-- It has ended and left its connection in the queue of a resource; only in `locker`. -/
  | parked (c : Connection)
  deriving DecidableEq

/-- `signalling`: the connection has been appended, and `pthread_cond_signal` is still to come. -/
inductive Acceptor
  | accepting
  | signalling
  deriving DecidableEq

/-- `pending` is `g_connection_list1`; the nodes of `g_connection_list` are the connections that
the threads serve or have been parked with. -/
structure Pool where
  workers : List Worker
  pending : List Connection
  acceptor : Acceptor
  deriving DecidableEq

namespace Worker

def isWoken : Worker → Bool
  | woken => true
  | _ => false

def isActive : Worker → Bool
  | serving _ | parked _ => true
  | _ => false

/-- A thread that is there and does not wait. -/
def isAwake : Worker → Bool
  | ready | woken | serving _ => true
  | _ => false

end Worker

inductive Event
  /-- `accept_work_func`, up to the unlocking of `g_connection_lock`. -/
  | accept (c : Connection)
  /-- The signal wakes a waiting thread, and none only if no thread waits. -/
  | signal (i : Option ℕ)
  /-- `pthread_cond_wait` may return without a signal. -/
  | spurious (i : ℕ)
  | take (i : ℕ)
  | finish (i : ℕ)
  | wait (i : ℕ)
  | park (i : ℕ)
  /-- `unlock_resource` creates the thread anew. -/
  | resume (i : ℕ)
  deriving DecidableEq

namespace Pool

/-- `g_threads_num` threads, none of which has come to its wait. -/
def start (threadsNum : ℕ) : Pool where
  workers := List.replicate threadsNum .ready
  pending := []
  acceptor := .accepting

def set (p : Pool) (i : ℕ) (w : Worker) : Pool := { p with workers := p.workers.set i w }

@[simp] lemma set_pending (p : Pool) (i : ℕ) (w : Worker) : (p.set i w).pending = p.pending := rfl

def step (p : Pool) : Event → Option Pool
  | .accept c =>
    if p.acceptor = .accepting then
      -- maximum connection reached
      if p.workers.length ≤ p.workers.countP Worker.isActive + 1 + p.pending.length then some p
      else some { p with pending := p.pending ++ [c], acceptor := .signalling }
    else none
  | .signal (some i) =>
    if p.acceptor = .signalling ∧ p.workers[i]? = some .waiting then
      some { p.set i .woken with acceptor := .accepting }
    else none
  | .signal none =>
    if p.acceptor = .signalling ∧ .waiting ∉ p.workers then some { p with acceptor := .accepting }
    else none
  | .spurious i => if p.workers[i]? = some .waiting then some (p.set i .woken) else none
  | .take i =>
    if p.workers[i]? = some .woken then
      match p.pending with
      | [] => some (p.set i .ready)
      | c :: pending => some { p.set i (.serving c) with pending }
    else none
  | .finish i =>
    match p.workers[i]? with
    | some (.serving _) => some (p.set i .ready)
    | _ => none
  | .wait i => if p.workers[i]? = some .ready then some (p.set i .waiting) else none
  | .park i =>
    match p.workers[i]? with
    | some (.serving c) => some (p.set i (.parked c))
    | _ => none
  | .resume i =>
    match p.workers[i]? with
    | some (.parked c) => some (p.set i (.serving c))
    | _ => none

/-- The signals that are still to be delivered. -/
def owed (p : Pool) : ℕ := if p.acceptor = .signalling then 1 else 0

/-- No connection is pending while all threads wait and no signal is to be delivered. -/
def Attended (p : Pool) : Prop :=
  p.pending ≠ [] → (∃ w ∈ p.workers, w.isAwake) ∨ p.acceptor = .signalling

end Pool

/-- A thread begins to wait only while for each pending connection another one is on its way to
the list, or the signal is still to be delivered. -/
def Fits (p : Pool) : Event → Prop
  | .wait _ => p.pending.length ≤ p.workers.countP Worker.isWoken + p.owed
  | _ => True

/-- Where a thread waits, the pending connections are accounted for; and there are more threads
than connections. -/
structure Inv (p : Pool) : Prop where
  expected : .waiting ∈ p.workers → p.pending.length ≤ p.workers.countP Worker.isWoken + p.owed
  room : p.pending ≠ [] → p.pending.length + p.workers.countP Worker.isActive < p.workers.length

variable {p q : Pool} {i : ℕ} {w v : Worker}

lemma countP_set {f : Worker → Bool} {l : List Worker} (h : l[i]? = some v) :
    (l.set i w).countP f + (if f v then 1 else 0) = l.countP f + if f w then 1 else 0 := by
  obtain ⟨hi, hv⟩ := List.getElem?_eq_some_iff.mp h
  rw [List.countP_set hi, hv]
  have hpos : f v → 0 < l.countP f := fun hf =>
    List.countP_pos_iff.mpr ⟨v, List.mem_of_getElem? h, hf⟩
  split_ifs with h1 h2
  · have := hpos h1
    omega
  · have := hpos h1
    omega
  · omega
  · omega

lemma mem_of_mem_set {x : Worker} (hx : x ≠ w) (h : x ∈ p.workers.set i w) : x ∈ p.workers := by
  rcases List.mem_or_eq_of_mem_set h with h | h
  · exact h
  · exact absurd h hx

/-- A thread moves on: what an event may change in the counts that the invariant compares. -/
lemma Inv.of_set {pending : List Connection} {acceptor : Acceptor} (hp : Inv p)
    (hv : p.workers[i]? = some v) (hw : w ≠ .waiting)
    (hexp : pending.length + (if v.isWoken then 1 else 0) + p.owed ≤
      p.pending.length + (if w.isWoken then 1 else 0) +
        if acceptor = .signalling then 1 else 0)
    (hroom : pending.length + (if w.isActive then 1 else 0) ≤
      p.pending.length + if v.isActive then 1 else 0)
    (hnil : p.pending = [] → pending = []) :
    Inv ⟨p.workers.set i w, pending, acceptor⟩ := by
  have hwoken := countP_set (f := Worker.isWoken) (w := w) hv
  have hactive := countP_set (f := Worker.isActive) (w := w) hv
  constructor
  · intro hwait
    have := hp.expected (mem_of_mem_set (Ne.symm hw) hwait)
    simp only [Pool.owed] at hexp this ⊢
    omega
  · intro hne
    have := hp.room fun h => hne (hnil h)
    simp only [List.length_set] at this ⊢
    omega

lemma inv_start (n : ℕ) : Inv (Pool.start n) := by
  constructor
  · intro h
    exact absurd (List.eq_of_mem_replicate h) (by decide)
  · intro h
    exact absurd rfl h

/-- The step lemma: what one event of the acceptor or of a thread preserves. -/
lemma Inv.step {e : Event} (hp : Inv p) (hfit : Fits p e) (h : p.step e = some q) : Inv q := by
  cases e with
  | accept c =>
    simp only [Pool.step] at h
    split_ifs at h with hacc hmax
    · cases h
      exact hp
    · cases h
      constructor
      · intro hwait
        have := hp.expected hwait
        simp only [Pool.owed, hacc, List.length_append, List.length_singleton, reduceCtorEq,
          if_true, if_false] at this ⊢
        omega
      · intro _
        simp only [List.length_append, List.length_singleton]
        omega
  | signal i =>
    cases i with
    | some i =>
      simp only [Pool.step] at h
      split_ifs at h with hsig
      cases h
      exact hp.of_set hsig.2 (by decide)
        (by simp [Pool.owed, hsig.1, Worker.isWoken]) (by simp [Worker.isActive]) id
    | none =>
      simp only [Pool.step] at h
      split_ifs at h with hsig
      cases h
      exact ⟨fun hwait => absurd hwait hsig.2, hp.room⟩
  | spurious i =>
    simp only [Pool.step] at h
    split_ifs at h with hi
    cases h
    exact hp.of_set hi (by decide) (by simp [Pool.owed, Worker.isWoken]) (by simp [Worker.isActive])
      id
  | take i =>
    simp only [Pool.step] at h
    split_ifs at h with hi
    cases hpend : p.pending with
    | nil =>
      -- somebody else has served the connection
      rw [hpend] at h
      cases h
      refine ⟨fun _ => by simp [Pool.set, hpend], fun hne => absurd hpend hne⟩
    | cons c pending =>
      rw [hpend] at h
      cases h
      refine hp.of_set hi (by simp) ?_ ?_ (by simp [hpend])
      · simp [Pool.owed, Pool.set, Worker.isWoken, hpend]
      · simp [Worker.isActive, hpend]
  | finish i =>
    simp only [Pool.step] at h
    split at h
    · rename_i c hi
      cases h
      exact hp.of_set hi (by decide) (by simp [Pool.owed, Worker.isWoken])
        (by simp [Worker.isActive]) id
    · cases h
  | wait i =>
    simp only [Pool.step] at h
    split_ifs at h with hi
    cases h
    have hwoken := countP_set (f := Worker.isWoken) (w := .waiting) hi
    have hactive := countP_set (f := Worker.isActive) (w := .waiting) hi
    simp only [Worker.isWoken, Worker.isActive, Bool.false_eq_true, if_false] at hwoken hactive
    refine ⟨fun _ => ?_, fun hne => ?_⟩
    · have howed : (p.set i .waiting).owed = p.owed := rfl
      have hpend := p.set_pending i .waiting
      simp only [Fits] at hfit
      rw [howed, hpend]
      exact (by omega : p.pending.length ≤ (p.workers.set i .waiting).countP Worker.isWoken + p.owed)
    · have := hp.room hne
      simp only [Pool.set, List.length_set] at this ⊢
      omega
  | park i =>
    simp only [Pool.step] at h
    split at h
    · rename_i c hi
      cases h
      exact hp.of_set hi (by simp) (by simp [Pool.owed, Worker.isWoken])
        (by simp [Worker.isActive]) id
    · cases h
  | resume i =>
    simp only [Pool.step] at h
    split at h
    · rename_i c hi
      cases h
      exact hp.of_set hi (by simp) (by simp [Pool.owed, Worker.isWoken])
        (by simp [Worker.isActive]) id
    · cases h

lemma exists_inactive (h : p.workers.countP Worker.isActive < p.workers.length) :
    ∃ w ∈ p.workers, w.isActive = false := by
  by_contra hall
  push Not at hall
  refine absurd (List.countP_eq_length.mpr fun w hw => ?_) (Nat.ne_of_lt h)
  simpa using hall w hw

/-- Where the counts hold, a pending connection has a thread or a signal coming to it. -/
lemma Inv.attended (hp : Inv p) : p.Attended := by
  intro hne
  have hpos := List.length_pos_iff.mpr hne
  by_cases hwait : .waiting ∈ p.workers
  · have hexp := hp.expected hwait
    by_cases hsig : p.acceptor = .signalling
    · exact Or.inr hsig
    · have howed : p.owed = 0 := if_neg hsig
      obtain ⟨w, hw, hwoken⟩ :=
        List.countP_pos_iff.mp (show 0 < p.workers.countP Worker.isWoken by omega)
      refine Or.inl ⟨w, hw, ?_⟩
      cases w <;> simp_all [Worker.isWoken, Worker.isAwake]
  · -- nobody waits, and not all threads have a connection
    have hroom := hp.room hne
    obtain ⟨w, hw, hidle⟩ := exists_inactive (p := p) (by omega)
    refine Or.inl ⟨w, hw, ?_⟩
    cases w with
    | waiting => exact absurd hw hwait
    | ready | woken => rfl
    | serving c | parked c => cases hidle

/-- **A pending connection is attended**: in every run in which no thread goes to wait while a
connection is pending that neither a woken thread nor a signal will reach. -/
theorem attended_of_run (n : ℕ) (events : List Event)
    (h : Run Fits (fun p e q => p.step e = some q) (Pool.start n) events p) : p.Attended :=
  (h.invariant (fun _ _ _ hp hfit hst => hp.step hfit hst) (inv_start n)).attended

theorem attended_of_signal : (⟨[.woken, .waiting, .ready], [5], .accepting⟩ : Pool).Attended :=
  attended_of_run 3 [.accept 5, .wait 0, .wait 1, .signal (some 0)]
    (.cons trivial rfl (.cons (by decide : (1 : ℕ) ≤ 1) rfl (.cons (by decide : (1 : ℕ) ≤ 1) rfl
      (.cons trivial rfl (.nil _)))))

/-- The signal finds nobody waiting; then all threads come to their wait, and the connection
stays in the list. -/
theorem not_attended_of_run : ¬ ∀ (n : ℕ) (events : List Event) (p : Pool),
    Run (fun _ _ => True) (fun p e q => p.step e = some q) (Pool.start n) events p →
      p.Attended := by
  intro h
  have hrun := h 2 [.accept 5, .signal none, .wait 0, .wait 1]
    ⟨[.waiting, .waiting], [5], .accepting⟩
    (.cons trivial rfl (.cons trivial rfl (.cons trivial rfl (.cons trivial rfl (.nil _)))))
  rcases hrun (by decide) with ⟨w, hw, hawake⟩ | hsig
  · simp only [List.mem_cons, List.not_mem_nil, or_false, or_self] at hw
    subst hw
    cases hawake
  · cases hsig

end SteepSystem.Daemons.Dispatch
