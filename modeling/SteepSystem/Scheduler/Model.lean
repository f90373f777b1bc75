import SteepSystem.Lib.Places
import SteepSystem.Lib.Runs

/-!
The pool of contexts of `contexts_pool.c`, which the threads of a server pass on to each other. A
step is one critical section of a lock of `g_context_locks`, with what a thread does outside of
them before its next one. What `epoll_ctl` is given, and the socket, are left out.
-/

namespace SteepSystem.Scheduler

open SteepSystem.Lib.Places SteepSystem.Lib.Runs

/-- The lists of `g_context_lists`. -/
inductive Queue
  | free | idling | polling | sleeping | turning
  deriving DecidableEq

inductive ContextType
  | list (q : Queue)
  | constructing
  | switching
  deriving DecidableEq

/-- The epoll thread and the scan thread of the pool, and the others: those that serve contexts,
listeners, and whoever wakes a context up. -/
inductive Thread (α : Type)
  | epoll
  | scan
  | other (a : α)
  deriving DecidableEq

/-- Where a context can be: in a list, or with a thread that has taken it from one. -/
inductive Place (α : Type)
  | list (q : Queue)
  | hand (a : Thread α)
  deriving DecidableEq

structure ScheduleContext where
  type : ContextType
  bWaiting : Bool
  deriving DecidableEq

/-- `contexts` has the lists, and what each thread has taken from them, for the scan thread its
`temp_list`. A thread in `contexts_pool_wakeup_context` that has seen its context asleep, and has
not removed it yet, is `waking` it. -/
structure Pool (κ α : Type) where
  ctx : κ → ScheduleContext
  contexts : Place α → List κ
  waking : Thread α → Option κ

/-- What the calls of `epoll_ctl` come to; the second call of the two adds what is not there. -/
inductive EpollCtl
  | ok | added | failed
  deriving DecidableEq

variable {κ α : Type} [DecidableEq κ] [DecidableEq α]

inductive Event (κ α : Type)
  | getContext (a : Thread α) (q : Queue) (result : Option κ)
  /-- A listener makes the context that it has got its own. -/
  | construct (a : Thread α) (c : κ)
  | putContext (a : Thread α) (c : κ) (q : Queue) (ctl : EpollCtl)
  /-- `thread_work_func` is told of an event of the context. -/
  | epollEvent (c : κ)
  /-- `scan_work_func` goes over those that wait: who has timed out, and who then can be removed
  from epoll. -/
  | scanPolling (expired removed : κ → Bool)
  | scanIdling
  | scanTurning (temp : List κ)
  /-- `contexts_pool_signal` up to its `contexts_pool_put_context`. -/
  | signal (a : Thread α) (c : κ)
  | wakeSees (a : Thread α) (c : κ)
  | wakeRemoves (a : Thread α)
  /-- `context_pool_activate_context` up to its second critical section, which is that of a
  `contexts_pool_put_context`. -/
  | activate (a : Thread α) (c : κ)

namespace Pool

/-- `contexts_pool_init`. -/
def init (contextList : List κ) : Pool κ α where
  ctx _ := ⟨.list .free, false⟩
  contexts
    | .list .free => contextList
    | _ => []
  waking _ := none

def move (p : Pool κ α) (b b' : Place α) (c : κ) : Pool κ α :=
  { p with
    contexts := Function.update (Function.update p.contexts b ((p.contexts b).erase c)) b'
      (p.contexts b' ++ [c]) }

def setContext (p : Pool κ α) (c : κ) (x : ScheduleContext) : Pool κ α :=
  { p with ctx := Function.update p.ctx c x }

def setType (p : Pool κ α) (c : κ) (t : ContextType) : Pool κ α :=
  p.setContext c { p.ctx c with type := t }

/-- `double_list_remove`, by a thread that goes on with the context; nothing where the list does
not have the node. -/
def removeNode (p : Pool κ α) (q : Queue) (a : Thread α) (c : κ) : Option (Pool κ α) :=
  if c ∈ p.contexts (.list q) then some (p.move (.list q) (.hand a) c) else none

/-- `contexts_pool_get_context`. -/
def getContext (p : Pool κ α) (a : Thread α) (q : Queue) : Pool κ α :=
  if q = .free ∨ q = .turning then
    match p.contexts (.list q) with
    | [] => p
    | c :: _ => p.move (.list q) (.hand a) c
  else p

/-- What `contexts_pool_get_context` returns. -/
def gets (p : Pool κ α) (q : Queue) : Option κ :=
  if q = .free ∨ q = .turning then (p.contexts (.list q)).head? else none

/-- `b_waiting` behind `contexts_pool_put_context`. -/
def putWaiting (x : ScheduleContext) (q : Queue) (ctl : EpollCtl) : Bool :=
  match q with
  | .polling =>
    if x.type = .constructing then ctl == .ok
    else
      match ctl with
      | .ok => x.bWaiting
      | .added => true
      | .failed => x.bWaiting
  | .free => if x.type = .list .turning then false else x.bWaiting
  | _ => x.bWaiting

/-- `contexts_pool_put_context`, of a context that the thread has. -/
def putContext (p : Pool κ α) (a : Thread α) (c : κ) (q : Queue) (ctl : EpollCtl) : Pool κ α :=
  (p.setContext c ⟨.list q, putWaiting (p.ctx c) q ctl⟩).move (.hand a) (.list q) c

/-- A context leaves the list of its type for the one who has looked at it. -/
def switch (p : Pool κ α) (q : Queue) (a : Thread α) (c : κ) : Option (Pool κ α) :=
  (p.removeNode q a c).map fun p => p.setType c .switching

/-- The first loop of `scan_work_func`, over the list and `temp_list`; it ends at what was the
tail. -/
def scanLoop (expired removed : κ → Bool) (ptail : κ) :
    ℕ → (κ → ScheduleContext) → List κ → List κ → (κ → ScheduleContext) × List κ × List κ
  | 0, ctx, l, temp => (ctx, l, temp)
  | _ + 1, ctx, [], temp => (ctx, [], temp)
  | n + 1, ctx, c :: l, temp =>
    let (ctx, l, temp) :=
      if (ctx c).bWaiting = false then
        (Function.update ctx c { ctx c with type := .switching }, l, temp ++ [c])
      else if expired c && removed c then
        (Function.update ctx c ⟨.switching, false⟩, l, temp ++ [c])
      else (ctx, l ++ [c], temp)
    if c = ptail then (ctx, l, temp) else scanLoop expired removed ptail n ctx l temp

def scanPolling (p : Pool κ α) (expired removed : κ → Bool) : Pool κ α :=
  match (p.contexts (.list .polling)).getLast? with
  | none => p
  | some ptail =>
    let (ctx, l, temp) := scanLoop expired removed ptail (p.contexts (.list .polling)).length p.ctx
      (p.contexts (.list .polling)) (p.contexts (.hand .scan))
    { p with
      ctx
      contexts := Function.update (Function.update p.contexts (.list .polling) l)
        (.hand .scan) temp }

/-- All of a list goes to the end of another box, with a new type. -/
def moveAll (p : Pool κ α) (b b' : Place α) (t : ContextType) : Pool κ α :=
  { p with
    ctx := fun c => if c ∈ p.contexts b then { p.ctx c with type := t } else p.ctx c
    contexts := Function.update (Function.update p.contexts b []) b'
      (p.contexts b' ++ p.contexts b) }

/-- Nothing where a node is removed from a list that does not have it. -/
def step (p : Pool κ α) : Event κ α → Option (Pool κ α)
  | .getContext a q _ => some (p.getContext a q)
  | .construct _ c => some (p.setType c .constructing)
  | .putContext a c q ctl => some (p.putContext a c q ctl)
  | .epollEvent c =>
    if (p.ctx c).type ≠ .list .polling then some p
    else if (p.ctx c).bWaiting = false then some p
    else p.switch .polling .epoll c
  | .scanPolling expired removed => some (p.scanPolling expired removed)
  | .scanIdling => some (p.moveAll (.list .idling) (.hand .scan) .switching)
  | .scanTurning _ => some (p.moveAll (.hand .scan) (.list .turning) (.list .turning))
  | .signal a c =>
    if (p.ctx c).type ≠ .list .idling then some p else p.switch .idling a c
  | .wakeSees a c => some { p with waking := Function.update p.waking a (some c) }
  | .wakeRemoves a =>
    match p.waking a with
    | none => some p
    | some c =>
      (p.removeNode .sleeping a c).map fun p =>
        { p with waking := Function.update p.waking a none }
  | .activate a c =>
    if (p.ctx c).type ≠ .list .polling then some p else p.switch .polling a c

/-- What the threads do: each but the scan thread puts only what it has, and a context that sleeps
is woken up by one thread at a time. -/
def Admits (p : Pool κ α) : Event κ α → Prop
  | .getContext a q result => a ≠ .scan ∧ result = p.gets q
  | .construct a c => a ≠ .scan ∧ c ∈ p.contexts (.hand a)
  | .putContext a c _ _ => a ≠ .scan ∧ c ∈ p.contexts (.hand a)
  | .epollEvent _ => True
  | .scanPolling _ _ => True
  | .scanIdling => True
  | .scanTurning temp => temp = p.contexts (.hand .scan)
  | .signal a _ => a ≠ .scan
  | .wakeSees a c => a ≠ .scan ∧ (p.ctx c).type = .list .sleeping ∧ p.waking a = none ∧
      ∀ b, p.waking b ≠ some c ∧ c ∉ p.contexts (.hand b)
  | .wakeRemoves a => p.waking a ≠ none
  | .activate a _ => a ≠ .scan

end Pool

/-! ### The round of the scan -/

/-- Those of the waiting that the scan takes. -/
def taken (expired removed : κ → Bool) (ctx : κ → ScheduleContext) (c : κ) : Bool :=
  !(ctx c).bWaiting || (expired c && removed c)

/-- The context that is taken from the waiting. -/
def scanned (t : Bool) (ctx : κ → ScheduleContext) (c : κ) : κ → ScheduleContext :=
  if t then Function.update ctx c ⟨.switching, false⟩ else ctx

lemma scanLoop_cons (expired removed : κ → Bool) (ptail : κ) (ctx : κ → ScheduleContext) (c : κ)
    (l temp : List κ) (n : ℕ) {t : Bool} (ht : taken expired removed ctx c = t) :
    Pool.scanLoop expired removed ptail (n + 1) ctx (c :: l) temp =
      if c = ptail then
        (scanned t ctx c, l ++ (if t then [] else [c]), temp ++ (if t then [c] else []))
      else Pool.scanLoop expired removed ptail n (scanned t ctx c)
        (l ++ (if t then [] else [c])) (temp ++ (if t then [c] else [])) := by
  rw [Pool.scanLoop]
  cases hw : (ctx c).bWaiting with
  | false =>
    obtain rfl : t = true := by rw [← ht, taken, hw]; rfl
    simp [scanned, hw]
  | true =>
    cases he : (expired c && removed c) with
    | false =>
      obtain rfl : t = false := by rw [← ht, taken, hw, he]; rfl
      simp [scanned]
    | true =>
      obtain rfl : t = true := by rw [← ht, taken, hw, he]; rfl
      simp [scanned]

/-- One round: it goes over what has not been seen yet, up to the tail, and no further. -/
lemma scanLoop_eq {expired removed : κ → Bool} {ptail : κ} {ctx : κ → ScheduleContext}
    {todo kept temp : List κ} {n : ℕ} (hnodup : todo.Nodup)
    (htail : todo.getLast? = some ptail) (hn : todo.length ≤ n) :
    Pool.scanLoop expired removed ptail n ctx (todo ++ kept) temp =
      (fun c => if c ∈ todo.filter (taken expired removed ctx) then ⟨.switching, false⟩ else ctx c,
        kept ++ todo.filter (fun c => !taken expired removed ctx c),
        temp ++ todo.filter (taken expired removed ctx)) := by
  induction todo generalizing ctx kept temp n with
  | nil => cases htail
  | cons c todo ih =>
    obtain ⟨n, rfl⟩ : ∃ m, n = m + 1 := ⟨n - 1, by simp at hn; omega⟩
    obtain ⟨hc, hnodup⟩ := List.nodup_cons.mp hnodup
    obtain ⟨t, ht⟩ : ∃ t, taken expired removed ctx c = t := ⟨_, rfl⟩
    -- what comes behind it is looked at as if it had not been taken
    have hlater : ∀ d ∈ todo, taken expired removed (scanned t ctx c) d =
        taken expired removed ctx d := by
      intro d hd
      have hdc : d ≠ c := by
        rintro rfl
        exact hc hd
      cases t <;> simp [taken, scanned, Function.update_of_ne hdc]
    rw [List.cons_append, scanLoop_cons _ _ _ _ _ _ _ _ ht]
    by_cases hptail : c = ptail
    · rw [if_pos hptail]
      have hnil : todo = [] := by
        by_contra hne
        rw [List.getLast?_cons_of_ne_nil hne, ← hptail] at htail
        exact hc (List.mem_of_getLast? htail)
      subst hnil
      cases t with
      | false => simp [ht, scanned]
      | true =>
        refine Prod.ext ?_ (by simp [ht])
        funext d
        simp [ht, scanned, Function.update_apply]
    · rw [if_neg hptail]
      have hne : todo ≠ [] := by
        rintro rfl
        exact hptail (Option.some.inj htail)
      rw [List.getLast?_cons_of_ne_nil hne] at htail
      have hn' : todo.length ≤ n := by simp at hn; omega
      rw [List.append_assoc, ih hnodup htail hn', List.filter_congr hlater,
        List.filter_congr fun d hd => congrArg not (hlater d hd)]
      cases t with
      | false => simp [ht, scanned]
      | true =>
        refine Prod.ext ?_ (by simp [ht])
        funext d
        by_cases hdc : d = c
        · subst hdc
          simp [ht, scanned]
        · simp [ht, scanned, hdc]

/-- All that wait stay or are taken by the scan, in their order. -/
lemma scanPolling_eq {p : Pool κ α} (hnodup : (p.contexts (.list .polling)).Nodup)
    (expired removed : κ → Bool) :
    p.scanPolling expired removed =
      { p with
        ctx := fun c =>
          if c ∈ (p.contexts (.list .polling)).filter (taken expired removed p.ctx) then
            ⟨.switching, false⟩ else p.ctx c
        contexts := Function.update (Function.update p.contexts (.list .polling)
            ((p.contexts (.list .polling)).filter fun c => !taken expired removed p.ctx c))
          (.hand .scan) (p.contexts (.hand .scan) ++
            (p.contexts (.list .polling)).filter (taken expired removed p.ctx)) } := by
  unfold Pool.scanPolling
  cases htail : (p.contexts (.list .polling)).getLast? with
  | none =>
    have hnil := List.getLast?_eq_none_iff.mp htail
    have hself : Function.update (Function.update p.contexts (.list .polling) []) (.hand .scan)
        (p.contexts (.hand .scan)) = p.contexts := by
      rw [← hnil, Function.update_eq_self, Function.update_eq_self]
    simp [hnil, hself]
  | some ptail =>
    have hloop : Pool.scanLoop expired removed ptail _ p.ctx (p.contexts (.list .polling) ++ [])
        (p.contexts (.hand .scan)) = _ := scanLoop_eq hnodup htail le_rfl
    rw [List.append_nil] at hloop
    simp only [hloop, List.nil_append]

/-- The steps of the threads, in any order. -/
abbrev Steps (p : Pool κ α) (events : List (Event κ α)) (p' : Pool κ α) : Prop :=
  Run Pool.Admits (fun p e p' => p.step e = some p') p events p'

end SteepSystem.Scheduler
