import SteepSystem.Lib.Runs
import SteepSystem.MessageQueue.Steps

/-!
Whole runs of the mail queue. Whatever the order of the steps, each message is handed to the
transporter at most once, as it has been saved, and none is lost before; but a place can come to be
remembered for ever, and then no message that is saved there is handed out.
-/

namespace SteepSystem.MessageQueue

open SteepSystem.Lib SteepSystem.Lib.Bytes SteepSystem.Lib.CStrings SteepSystem.Lib.Handover
open SteepSystem.Lib.Runs

variable {p : Params} {n t : Queue} {saved handed : List Message}

/-- What has happened, step by step. -/
abbrev Log := List (Event × Record)

def savedIn (log : Log) : List Message := log.filterMap fun i => i.2.saved

def handedIn (log : Log) : List Message := log.filterMap fun i => i.2.handed

abbrev Happens (p : Params) : Queue → Log → Queue → Prop :=
  Run (fun n i => n.Admits p i.1) fun n i t => n.step p i.1 = some (t, i.2)

variable {log : Log} {currentId : ℕ}

lemma filterMap_cons_toList (f : Event × Record → Option Message) (i : Event × Record) :
    (i :: log).filterMap f = (f i).toList ++ log.filterMap f := by
  cases h : f i <;> simp [h]

/-- What happens to the queue is a run of the handover. -/
lemma steps_happens (h : Happens p n log t) (hinv : Inv (n.view saved handed))
    (hfiles : Files n saved) :
    Relation.ReflTransGen Step (n.view saved handed)
        (t.view (saved ++ savedIn log) (handed ++ handedIn log)) ∧
      Files t (saved ++ savedIn log) := by
  induction h generalizing saved handed with
  | nil n =>
    simp only [savedIn, handedIn, List.filterMap_nil, List.append_nil]
    exact ⟨.refl, hfiles⟩
  | @cons n m t i log hadmits hstep _ ih =>
    obtain ⟨hview, hfiles⟩ := follows_step hinv hfiles hadmits hstep
    have hfirst : Relation.ReflTransGen Step (n.view saved handed)
        (m.view (saved ++ i.2.saved.toList) (handed ++ i.2.handed.toList)) := by
      rcases hview with hview | hview
      · rw [hview]
      · exact .single hview
    obtain ⟨hrest, hlast⟩ := ih (inv_steps hinv hfirst) hfiles
    simp only [List.append_assoc] at hrest hlast
    simp only [savedIn, handedIn, filterMap_cons_toList]
    exact ⟨hfirst.trans hrest, hlast⟩

lemma files_start (p : Params) (hid : currentId < 2 ^ 31) : Files (.start p currentId) [] where
  counter := hid
  nodup := List.nodup_nil
  pending := by simp [Queue.start]
  ids := by simp
  blocks := by simp [Queue.start]
  parts := by simp [Queue.start]
  fresh := by simp [Queue.start]
  writing := by simp [Queue.start]
  memory := by simp [Queue.start]

lemma view_start (p : Params) (currentId : ℕ) : (Queue.start p currentId).view [] [] =
    ⟨fun _ => none, .idle, [], [], [], [], [], []⟩ := by
  have hmessage : (Queue.start p currentId).message? = fun _ => none := by
    funext pl
    cases pl with
    | tape pos =>
      have hzero : readInt (le 8 0) 0 = 0 := by decide
      change inBlock (le 8 0) = none
      unfold inBlock
      rw [if_pos hzero]
    | mess id => rfl
  unfold Queue.view
  rw [hmessage]
  rfl

lemma inv_happens (h : Happens p (.start p currentId) log t) (hid : currentId < 2 ^ 31) :
    Inv (t.view (savedIn log) (handedIn log)) ∧ Files t (savedIn log) := by
  have hstart : Inv ((Queue.start p currentId).view [] []) := by
    rw [view_start]
    exact inv_empty []
  obtain ⟨hsteps, hfiles⟩ := steps_happens h hstart (files_start p hid)
  exact ⟨inv_steps hstart hsteps, hfiles⟩

/-- However the steps of the two processes follow each other, no message is handed to the
transporter twice, each one is handed out as it has been saved, and one that has not been handed out
is complete in its place. -/
theorem handed_once (h : Happens p (.start p currentId) log t) (hid : currentId < 2 ^ 31) :
    (savedIn log).Nodup ∧ (handedIn log).Nodup ∧ (∀ m ∈ handedIn log, m ∈ savedIn log) ∧
      ∀ m ∈ savedIn log, m ∉ handedIn log → ∃ pl, t.message? pl = some m := by
  obtain ⟨hinv, hfiles⟩ := inv_happens h hid
  exact ⟨hfiles.ids.1.of_map _, hinv.handedOnce, fun m hm => (hinv.handed m hm).1, hinv.kept⟩

def plainParams : Params := ⟨1, 0, bytes "h"⟩

def plainEntity : FlushEntity where
  clientIp := bytes "1"
  parsedDomain := bytes "d"
  helloDomain := bytes "d"
  extras := []
  isRelay := false
  isOutbound := false
  isSpam := false
  envelopFrom := bytes "a@d"
  rcptTo := [bytes "b@d"]
  sender := by decide
  rcpt := by decide

def plainMail : Copied := ⟨[(bytes "Hello", true)], none⟩

def plainMessage (id : ℕ) : Message :=
  plainEntity.message id (plainEntity.head (bytes "h") (bytes "now") ++ plainMail.text)

/-- A mail comes into the block, and the delivery is told of it. -/
def filling (n : Queue) : Log :=
  [(.newId, .nothing), (.findBlock, .nothing),
    (.saveTape (n.currentId + 1) plainEntity plainMail (bytes "now") true,
      ⟨some (plainMessage (n.currentId + 1)), none⟩)]

def filled (n : Queue) : Queue :=
  { n with
    currentId := n.currentId + 1
    pending := []
    lastPos := 0
    writing := none
    tape := Function.update n.tape 0 ((plainMessage (n.currentId + 1)).block ++
      (n.tape 0).drop (plainMessage (n.currentId + 1)).block.length)
    told := n.told ++ [.tape 0] }

def numbered (n : Queue) : Queue :=
  { n with currentId := n.currentId + 1, pending := [n.currentId + 1] }

def found (n : Queue) : Queue := { numbered n with lastPos := 0, writing := some 0 }

lemma happens_filling (hturn : n.currentId ≠ 0x7FFFFFFF) (hpending : n.pending = [])
    (hwriting : n.writing = none) (hempty : n.emptyBlock plainParams = some 0)
    (hmess : n.mess (n.currentId + 1) = none) : Happens plainParams n (filling n) (filled n) := by
  have hnew : n.step plainParams .newId = some (numbered n, .nothing) := by
    unfold Queue.step
    dsimp only
    rw [if_neg hturn, hpending, numbered]
  have hfound : (numbered n).step plainParams .findBlock = some (found n, .nothing) := by
    have hempty' : (numbered n).emptyBlock plainParams = some 0 := hempty
    unfold Queue.step
    dsimp only
    rw [if_neg (by simp [numbered, hwriting]), hempty']
    rfl
  have hsaved : (found n).step plainParams
        (.saveTape (n.currentId + 1) plainEntity plainMail (bytes "now") true) =
      some (filled n, ⟨some (plainMessage (n.currentId + 1)), none⟩) := by
    have hmessage (id : ℕ) : plainEntity.message id
        (plainEntity.head plainParams.hostId (bytes "now") ++ plainMail.text) = plainMessage id :=
      rfl
    have hlength (id : ℕ) : (plainMessage id).block.length = (plainMessage 0).block.length := by
      simp [Message.block, Message.tail, leInt, plainMessage, FlushEntity.message]
    have hwriting : (found n).writing = some 0 := rfl
    have hguard : ¬ (n.currentId + 1 ∉ (found n).pending ∨
        (found n).mess (n.currentId + 1) ≠ none) := by simp [found, numbered, hmess]
    have hfits : ¬ (plainMail.rest ≠ none ∨
        128 * 1024 < (plainMessage (n.currentId + 1)).block.length) := by
      rw [hlength]
      decide +kernel
    unfold Queue.step
    rw [hwriting]
    dsimp only
    rw [hmessage, if_neg hguard, if_neg hfits]
    simp [filled, found, numbered, Queue.tell]
  exact .cons ⟨fun _ => hturn, by simp⟩ hnew
    (.cons (by simp [Queue.Admits]) hfound (.cons (by simp [Queue.Admits]) hsaved (.nil _)))

def full : Queue := filled (.start plainParams 0)

/-- The delivery has loaded the mail. -/
def loaded : Queue :=
  { full with told := [], loader := .reading (.tape 0) }.putToUsed ⟨.tape 0, 0, []⟩

def loading : Log :=
  filling (.start plainParams 0) ++ [(.receive, .nothing), (.load true, .nothing)]

lemma happens_loading : Happens plainParams (.start plainParams 0) loading loaded := by
  have hempty : (Queue.start plainParams 0).emptyBlock plainParams = some 0 := by decide +kernel
  have hload : { full with told := [], loader := .reading (.tape 0) }.step plainParams
      (.load true) = some (loaded, .nothing) := by
    have hused : ¬ (full.unused 0 ∨ full.free = 0) := by decide +kernel
    have hnode : { full with told := [], loader := .reading (.tape 0) }.load plainParams true
        (.tape 0) = loaded := by
      unfold Queue.load
      dsimp only
      exact if_neg hused
    rw [← hnode]
    rfl
  have hreceived : Happens plainParams full [(.receive, .nothing), (.load true, .nothing)] loaded :=
    .cons (by simp [Queue.Admits]) rfl (.cons (by simp [Queue.Admits]) hload (.nil _))
  exact (happens_filling (by decide) rfl rfl hempty rfl).append hreceived

lemma happens_get : Happens plainParams loaded [(.get, ⟨none, some (plainMessage 1)⟩)]
    { loaded with used := [], taken := [⟨.tape 0, 0, []⟩] } := by
  have hread : retrieveToMessage (full.tape 0) = plainMessage 1 := by decide +kernel
  have hget : loaded.step plainParams .get =
      some ({ loaded with used := [], taken := [⟨.tape 0, 0, []⟩] },
        ⟨none, some (plainMessage 1)⟩) := by
    rw [← hread]
    rfl
  exact .cons (by simp [Queue.Admits]) hget (.nil _)

theorem handed_once_told :
    ∃ (t : Queue) (log : Log), Happens plainParams (.start plainParams 0) log t ∧
      handedIn log = [plainMessage 1] ∧
      (savedIn log).Nodup ∧ (handedIn log).Nodup ∧ (∀ m ∈ handedIn log, m ∈ savedIn log) ∧
        ∀ m ∈ savedIn log, m ∉ handedIn log → ∃ pl, t.message? pl = some m := by
  have hhappens := happens_loading.append happens_get
  exact ⟨_, _, hhappens, rfl, handed_once hhappens (by decide)⟩

/-! ### Places that stay remembered -/

/-- The delivery remembers the place, and has no node for it. -/
abbrev Queue.Stuck (n : Queue) (pl : Place) : Prop := Handover.Stuck (n.view [] []) pl

/-- `message_dequeue_put` can come to forget a place before the thread that loaded it remembers it.
From then on, whatever happens, the place is never loaded again, and a message that is saved there
is not handed to the transporter. -/
theorem stuck_forever {more : Log} {pl : Place} {k : Queue}
    (h : Happens p (.start p currentId) log n) (hid : currentId < 2 ^ 31) (hstuck : n.Stuck pl)
    (hmore : Happens p n more k) :
    k.Stuck pl ∧ ∀ m, k.message? pl = some m → m ∉ handedIn (log ++ more) := by
  obtain ⟨hinv, hfiles⟩ := inv_happens h hid
  obtain ⟨hsteps, -⟩ := steps_happens hmore hinv hfiles
  have hview : Handover.Stuck (n.view (savedIn log) (handedIn log)) pl :=
    ⟨hstuck.hash, hstuck.used, hstuck.taken, hstuck.cleared, hstuck.reading⟩
  have hlast := stuck_steps hview hsteps
  refine ⟨⟨hlast.hash, hlast.used, hlast.taken, hlast.cleared, hlast.reading⟩, fun m hm => ?_⟩
  have hnot := hlast.not_handed (inv_steps hinv hsteps) hm
  rw [handedIn, List.filterMap_append]
  exact hnot

/-- The transporter is done with the mail before the place is remembered. -/
def overtaken : Queue :=
  { loaded with
    used := []
    removed := [⟨.tape 0, 0, []⟩]
    tape := Function.update full.tape 0 (le 4 0 ++ (full.tape 0).drop 4)
    loader := .idle
    hash := [.tape 0] }

lemma happens_overtaken : Happens plainParams (.start plainParams 0)
    (loading ++ ((.get, ⟨none, some (plainMessage 1)⟩) :: [(.clear ⟨.tape 0, 0, []⟩, .nothing),
      (.forget ⟨.tape 0, 0, []⟩, .nothing), (.add, .nothing)])) overtaken := by
  have hdone : Happens plainParams { loaded with used := [], taken := [⟨.tape 0, 0, []⟩] }
      [(.clear ⟨.tape 0, 0, []⟩, .nothing), (.forget ⟨.tape 0, 0, []⟩, .nothing),
        (.add, .nothing)] overtaken :=
    .cons (by simp [Queue.Admits]) rfl (.cons (by simp [Queue.Admits]) rfl
      (.cons ⟨by simp, fun _ pl hadding => by cases hadding; decide +kernel⟩ rfl (.nil _)))
  exact happens_loading.append (happens_get.append hdone)

theorem stuck_forever_overtaken :
    ∃ (n t : Queue) (log more : Log), Happens plainParams (.start plainParams 0) log n ∧
      n.Stuck (.tape 0) ∧ Happens plainParams n more t ∧ savedIn more = [plainMessage 2] ∧
      t.Stuck (.tape 0) ∧ ∀ m, t.message? (.tape 0) = some m → m ∉ handedIn (log ++ more) := by
  have hempty : overtaken.emptyBlock plainParams = some 0 := by decide +kernel
  have hstuck : overtaken.Stuck (.tape 0) :=
    ⟨by decide, by decide, by decide, by decide, by decide⟩
  have hmore := happens_filling (n := overtaken) (by decide) rfl rfl hempty rfl
  exact ⟨_, _, _, _, happens_overtaken, hstuck, hmore, rfl,
    stuck_forever happens_overtaken (by decide) hstuck hmore⟩

end SteepSystem.MessageQueue
