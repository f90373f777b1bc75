import SteepSystem.MessageQueue.Model

/-!
The mail queue hands its messages over through the places where they are: a step of the two
processes is one of the handover, or none of it.
-/

namespace SteepSystem.MessageQueue

open SteepSystem.Lib.Bytes SteepSystem.Lib.CStrings SteepSystem.Lib.Handover

/-- The complete message that is read of a file. -/
def complete (content : Option Bytes) : Option Message :=
  content.bind fun c => if ofLE (c.take 8) = 0 then none else some (retrieveToMessage c)

/-- The complete message of a block. -/
def inBlock (b : Bytes) : Option Message :=
  if readInt b 0 = 0 then none else some (retrieveToMessage b)

/-- The complete message in a place. -/
def Queue.message? (n : Queue) : Place → Option Message
  | .tape pos => inBlock (n.tape pos)
  | .mess id => complete (n.mess id)

/-- The queue as a handover; what has been saved and handed out so far stands beside it. -/
def Queue.view (n : Queue) (saved handed : List Message) : State Place Message where
  stored := n.message?
  loader := n.loader
  used := n.used.map Node.place
  taken := n.taken.map Node.place
  cleared := n.cleared.map Node.place
  hash := n.hash
  saved
  handed

variable {p : Params} {n t : Queue} {e : Event} {r : Record} {saved handed : List Message}
  {pos id : ℕ} {b : Bytes} {content : Option Bytes} {m : Message}

lemma message?_tape (htape : t.tape = Function.update n.tape pos b) (hmess : t.mess = n.mess) :
    t.message? = Function.update n.message? (.tape pos) (inBlock b) := by
  funext pl
  cases pl with
  | tape pos' =>
    by_cases hpos : pos' = pos
    · subst hpos
      simp [Queue.message?, htape]
    · rw [Function.update_of_ne (by simpa using hpos)]
      simp [Queue.message?, htape, hpos]
  | mess id =>
    rw [Function.update_of_ne (by simp)]
    simp [Queue.message?, hmess]

lemma message?_mess (htape : t.tape = n.tape) (hmess : t.mess = Function.update n.mess id content) :
    t.message? = Function.update n.message? (.mess id) (complete content) := by
  funext pl
  cases pl with
  | tape pos =>
    rw [Function.update_of_ne (by simp)]
    simp [Queue.message?, htape]
  | mess id' =>
    by_cases hid : id' = id
    · subst hid
      simp [Queue.message?, hmess]
    · rw [Function.update_of_ne (by simpa using hid)]
      simp [Queue.message?, hmess, hid]

lemma ofLE_take_ne_zero (h : readInt b 0 ≠ 0) : ofLE (b.take 8) ≠ 0 := by
  rw [Ne, readInt_zero_eq] at h
  intro hzero
  have hsplit : b.take 8 = b.take 4 ++ (b.drop 4).take 4 := by
    rw [← List.take_add]
  rw [hsplit, ofLE_append] at hzero
  omega

lemma complete_block (h : m.Sound) : complete (some m.block) = some m := by
  have hlength := ofLE_take_block m h []
  have hread := retrieveToMessage_block h []
  rw [List.append_nil] at hlength hread
  have hpos := h.mail_pos
  unfold complete
  rw [Option.bind_some, hlength, hread, if_neg (by omega)]

lemma inBlock_block (h : m.Sound) (hfits : m.mail.length < 2 ^ 31) (rest : Bytes) :
    inBlock (m.block ++ rest) = some m := by
  have hpos := h.mail_pos
  have hne : readInt (m.block ++ rest) 0 ≠ 0 := by
    rw [Ne, readInt_zero_eq]
    have htake : (m.block ++ rest).take 4 = le 4 m.mail.length := by
      simp [Message.block, le]
    rw [htake, ofLE_le_of_lt (by omega)]
    omega
  unfold inBlock
  rw [if_neg hne, retrieveToMessage_block h rest]

lemma readInt_zero_append (l : Bytes) : readInt (le 4 0 ++ l) 0 = 0 := by
  rw [readInt_zero_eq, List.take_left' (length_le 4 0)]
  rfl

lemma complete_part (text : Bytes) : complete (some (le 8 0 ++ text)) = none := by
  unfold complete
  rw [Option.bind_some, List.take_left' (length_le 8 0)]
  rfl

/-- The numbers, and what the server knows of the places. -/
structure Files (n : Queue) (saved : List Message) : Prop where
  counter : n.currentId < 2 ^ 31
  nodup : n.pending.Nodup
  pending : ∀ id ∈ n.pending, id ≤ n.currentId ∧ ∀ m ∈ saved, m.flushId ≠ id
  ids : (saved.map Message.flushId).Nodup ∧ ∀ m ∈ saved, m.flushId ≤ n.currentId
  blocks : ∀ pos, 8 ≤ (n.tape pos).length
  parts : ∀ id ∈ n.pending, ∀ content, n.mess id = some content →
    ∃ text, content = le 8 0 ++ text ∧ text ≠ []
  fresh : ∀ id, n.currentId < id → n.mess id = none
  writing : ∀ pos, n.writing = some pos → readInt (n.tape pos) 0 = 0
  memory : ∀ node ∈ n.used ++ n.taken, ∀ m, n.message? node.place = some m →
    retrieveToMessage (n.memory node) = m

/-- A step of the queue is one of the handover, or none of it. -/
structure Follows (n t : Queue) (saved handed : List Message) (r : Record) : Prop where
  view : t.view (saved ++ r.saved.toList) (handed ++ r.handed.toList) = n.view saved handed ∨
    Step (n.view saved handed) (t.view (saved ++ r.saved.toList) (handed ++ r.handed.toList))
  files : Files t (saved ++ r.saved.toList)

/-- Where nothing is saved or handed out. -/
lemma follows_nothing (hview : t.view saved handed = n.view saved handed ∨
      Step (n.view saved handed) (t.view saved handed)) (hfiles : Files t saved) :
    Follows n t saved handed .nothing := by
  refine ⟨?_, ?_⟩ <;> simpa [Record.nothing]

lemma message?_eq (htape : t.tape = n.tape) (hmess : t.mess = n.mess) :
    t.message? = n.message? := by
  funext pl
  cases pl <;> simp [Queue.message?, htape, hmess]

lemma memory_eq (htape : t.tape = n.tape) (node : Node) : t.memory node = n.memory node := by
  unfold Queue.memory
  rw [htape]

lemma Files.congr (h : Files n saved) (hid : t.currentId = n.currentId)
    (hpending : t.pending = n.pending) (htape : t.tape = n.tape) (hmess : t.mess = n.mess)
    (hwriting : t.writing = n.writing)
    (hnodes : ∀ node ∈ t.used ++ t.taken, node ∈ n.used ++ n.taken) : Files t saved := by
  refine ⟨hid ▸ h.counter, hpending ▸ h.nodup, ?_, ?_, ?_, ?_, ?_, ?_, fun node hmem m hm => ?_⟩
  · rw [hpending, hid]
    exact h.pending
  · rw [hid]
    exact h.ids
  · rw [htape]
    exact h.blocks
  · rw [hpending, hmess]
    exact h.parts
  · rw [hid, hmess]
    exact h.fresh
  · rw [hwriting, htape]
    exact h.writing
  · rw [message?_eq htape hmess] at hm
    rw [memory_eq htape]
    exact h.memory node (hnodes node hmem) m hm

/-! ### The server -/

lemma follows_newId (h : Files n saved) (hturn : n.currentId ≠ 0x7FFFFFFF)
    (hstep : n.step p .newId = some (t, r)) : Follows n t saved handed r := by
  dsimp only [Queue.step] at hstep
  rw [if_neg hturn] at hstep
  cases hstep
  have hcounter := h.counter
  refine follows_nothing (.inl rfl) ⟨?_, ?_, fun id hid => ?_, ⟨h.ids.1, fun m hm => ?_⟩, h.blocks,
    fun id hid content hcontent => ?_, fun id hid => ?_, h.writing, h.memory⟩
  · dsimp only
    omega
  · refine List.nodup_cons.mpr ⟨fun hmem => ?_, h.nodup⟩
    have := (h.pending _ hmem).1
    omega
  · dsimp only
    rcases List.mem_cons.mp hid with rfl | hid
    · refine ⟨le_rfl, fun m hm heq => ?_⟩
      have := h.ids.2 m hm
      push_cast at heq
      omega
    · exact ⟨(h.pending id hid).1.trans (Nat.le_succ _), (h.pending id hid).2⟩
  · have := h.ids.2 m hm
    push_cast
    omega
  · rcases List.mem_cons.mp hid with rfl | hid
    · have := h.fresh (n.currentId + 1) (Nat.lt_succ_self _)
      dsimp only at hcontent
      rw [this] at hcontent
      cases hcontent
    · exact h.parts id hid content hcontent
  · exact h.fresh id (Nat.lt_of_succ_lt hid)

lemma follows_findBlock (h : Files n saved) (hstep : n.step p .findBlock = some (t, r)) :
    Follows n t saved handed r := by
  dsimp only [Queue.step] at hstep
  split_ifs at hstep
  obtain ⟨pos, hpos, heq⟩ := Option.map_eq_some_iff.mp hstep
  cases heq
  have hunused : n.unused pos = true := List.find?_some hpos
  refine follows_nothing (.inl rfl) ⟨h.counter, h.nodup, h.pending, h.ids, h.blocks, h.parts,
    h.fresh, fun pos' hpos' => ?_, h.memory⟩
  cases hpos'
  simpa [Queue.unused] using hunused

/-- The server writes a place; the delivery is as before. -/
structure Writes (n t : Queue) (pl : Place) (x : Option Message) : Prop where
  message : t.message? = Function.update n.message? pl x
  tape : ∀ pos, Place.tape pos ≠ pl → t.tape pos = n.tape pos
  view : ∀ saved handed, t.view saved handed =
    { n.view saved handed with stored := t.message? }
  nodes : t.used = n.used ∧ t.taken = n.taken

lemma writes_tape (n : Queue) (pos : ℕ) (b : Bytes) (pending : List ℕ) (writing : Option ℕ)
    (told : List Place) :
    Writes n { n with pending, writing, tape := Function.update n.tape pos b, told } (.tape pos)
      (inBlock b) where
  message := message?_tape rfl rfl
  tape pos' hne := Function.update_of_ne (by simpa using hne) _ _
  view _ _ := rfl
  nodes := ⟨rfl, rfl⟩

lemma writes_mess (n : Queue) (id : ℕ) (content : Option Bytes) (pending : List ℕ)
    (told : List Place) :
    Writes n { n with pending, mess := Function.update n.mess id content, told } (.mess id)
      (complete content) where
  message := message?_mess rfl rfl
  tape _ _ := rfl
  view _ _ := rfl
  nodes := ⟨rfl, rfl⟩

lemma place_ne (hinv : Inv (n.view saved handed)) {pl : Place} (hfree : n.message? pl = none)
    {node : Node} (hmem : node ∈ n.used ++ n.taken) : node.place ≠ pl := by
  rintro rfl
  refine hinv.not_active hfree ?_
  have := List.mem_map_of_mem (f := Node.place) hmem
  rwa [List.map_append] at this

lemma Files.pending_erase (h : Files n saved) (hm : m.flushId = id) :
    ∀ id' ∈ n.pending.erase id, id' ≤ n.currentId ∧ ∀ m' ∈ saved ++ [m], m'.flushId ≠ id' := by
  intro id' hmem
  obtain ⟨hne, hmem⟩ := h.nodup.mem_erase_iff.mp hmem
  refine ⟨(h.pending id' hmem).1, fun m' hm' => ?_⟩
  rcases List.mem_append.mp hm' with hm' | hm'
  · exact (h.pending id' hmem).2 m' hm'
  · rw [List.mem_singleton.mp hm', hm]
    exact_mod_cast hne.symm

lemma Files.ids_append (h : Files n saved) (hid : id ∈ n.pending) (hm : m.flushId = id) :
    ((saved ++ [m]).map Message.flushId).Nodup ∧
      ∀ m' ∈ saved ++ [m], m'.flushId ≤ n.currentId := by
  refine ⟨?_, fun m' hm' => ?_⟩
  · rw [List.map_append]
    refine List.nodup_append.mpr ⟨h.ids.1, List.nodup_singleton _, ?_⟩
    rintro a ha b hb rfl
    obtain ⟨m', hm', heq⟩ := List.mem_map.mp ha
    refine (h.pending id hid).2 m' hm' (heq.trans ?_)
    rw [List.mem_singleton.mp hb, hm]
  · rcases List.mem_append.mp hm' with hm' | hm'
    · exact h.ids.2 m' hm'
    · rw [List.mem_singleton.mp hm', hm]
      exact_mod_cast (h.pending id hid).1

lemma Files.new (h : Files n saved) (hid : id ∈ n.pending) (hm : m.flushId = id) : m ∉ saved :=
  fun hmem => (h.pending id hid).2 m hmem hm

lemma Files.free (h : Files n saved) (hid : id ∈ n.pending) : n.message? (.mess id) = none := by
  change complete (n.mess id) = none
  cases hcontent : n.mess id with
  | none => rfl
  | some content =>
    obtain ⟨text, rfl, -⟩ := h.parts id hid content hcontent
    exact complete_part text

lemma sound_message (e : FlushEntity) (id : ℕ) {mail : Bytes} (hid : id < 2 ^ 31)
    (hpos : 0 < mail.length) (hfits : mail.length < 2 ^ 64) : (e.message id mail).Sound where
  mail_pos := hpos
  mail_fits := hfits
  flushId := by
    unfold IsInt FlushEntity.message
    dsimp only
    omega
  boundType := by
    unfold IsInt FlushEntity.message FlushEntity.smtpType
    dsimp only
    split_ifs <;> decide
  isSpam := by
    unfold IsInt FlushEntity.message
    dsimp only
    split_ifs <;> decide
  sender := e.sender
  rcpt := e.rcpt

lemma length_head (e : FlushEntity) (hostId time : Bytes) : 0 < (e.head hostId time).length := by
  have : (bytes "X-Lasthop: ").length = 11 := by decide
  simp only [FlushEntity.head, List.length_append, this]
  omega

/-- A place that is written says nothing new of the memory of a node elsewhere. -/
lemma Files.memory_update (h : Files n saved) {pl : Place} {x : Option Message}
    (hmessage : t.message? = Function.update n.message? pl x)
    (htape : ∀ pos, Place.tape pos ≠ pl → t.tape pos = n.tape pos)
    (hnodes : ∀ node ∈ t.used ++ t.taken, ∀ m, t.message? node.place = some m →
      node ∈ n.used ++ n.taken ∧ node.place ≠ pl) :
    ∀ node ∈ t.used ++ t.taken, ∀ m, t.message? node.place = some m →
      retrieveToMessage (t.memory node) = m := by
  intro node hmem m hm
  obtain ⟨hmem, hne⟩ := hnodes node hmem m hm
  rw [hmessage, Function.update_of_ne hne] at hm
  rw [← h.memory node hmem m hm]
  unfold Queue.memory
  cases hplace : node.place with
  | tape pos => exact congrArg retrieveToMessage (htape pos (hplace ▸ hne))
  | mess id => rfl

lemma Writes.memory {pl : Place} {x : Option Message} (hwrites : Writes n t pl x)
    (hinv : Inv (n.view saved handed)) (h : Files n saved) (hfree : n.message? pl = none) :
    ∀ node ∈ t.used ++ t.taken, ∀ m, t.message? node.place = some m →
      retrieveToMessage (t.memory node) = m := by
  refine h.memory_update hwrites.message hwrites.tape fun node hmem m _ => ?_
  rw [hwrites.nodes.1, hwrites.nodes.2] at hmem
  exact ⟨hmem, place_ne hinv hfree hmem⟩

/-- No complete message comes into the place. -/
lemma follows_blank {pl : Place} (hwrites : Writes n t pl none) (hfree : n.message? pl = none)
    (hfiles : Files t saved) : Follows n t saved handed .nothing := by
  refine follows_nothing (.inl ?_) hfiles
  rw [hwrites.view, hwrites.message, ← hfree, Function.update_eq_self]
  rfl

/-- A complete message comes into a place that is free. -/
lemma follows_save {pl : Place} (hwrites : Writes n t pl (some m)) (hfree : n.message? pl = none)
    (hnew : m ∉ saved) (hfiles : Files t (saved ++ [m])) :
    Follows n t saved handed ⟨some m, none⟩ := by
  refine ⟨.inr ?_, hfiles⟩
  have hsave := Step.save (s := n.view saved handed) hfree hnew
  simp only [Option.toList_some, Option.toList_none, List.append_nil]
  rw [hwrites.view, hwrites.message]
  exact hsave

lemma Files.blocks_update (h : Files n saved) (hb : 8 ≤ b.length) (pos pos' : ℕ) :
    8 ≤ (Function.update n.tape pos b pos').length := by
  by_cases hpos : pos' = pos
  · rwa [hpos, Function.update_self]
  · rw [Function.update_of_ne hpos]
    exact h.blocks pos'

lemma follows_saveTape (hinv : Inv (n.view saved handed)) (h : Files n saved) {e : FlushEntity}
    {c : Copied} {time : Bytes} {told : Bool}
    (hstep : n.step p (.saveTape id e c time told) = some (t, r)) :
    Follows n t saved handed r := by
  dsimp only [Queue.step] at hstep
  split at hstep
  · cases hstep
  · rename_i pos hwriting
    split_ifs at hstep with hpending hfits
    obtain ⟨hid, -⟩ := not_or.mp hpending
    obtain ⟨-, hfits⟩ := not_or.mp hfits
    rw [not_not] at hid
    have hcounter := h.counter
    have hle := (h.pending id hid).1
    have hlength : (e.head p.hostId time ++ c.text).length < 2 ^ 31 := by
      simp only [Message.block, FlushEntity.message, List.length_append, length_le] at hfits ⊢
      omega
    have hpos : 0 < (e.head p.hostId time ++ c.text).length := by
      have := length_head e p.hostId time
      rw [List.length_append]
      omega
    have hsound := sound_message e id (by omega) hpos (by omega)
    generalize hm : e.message id (e.head p.hostId time ++ c.text) = m at hsound hstep
    have hflush : m.flushId = id := by
      rw [← hm]
      rfl
    have hmail : m.mail.length < 2 ^ 31 := by
      rw [← hm]
      exact hlength
    cases hstep
    have hwrites := writes_tape n pos (m.block ++ (n.tape pos).drop m.block.length)
      (n.pending.erase id) none (n.tell told (.tape pos))
    rw [inBlock_block hsound hmail] at hwrites
    have hfree : n.message? (.tape pos) = none := if_pos (h.writing pos hwriting)
    exact follows_save hwrites hfree (h.new hid hflush)
      ⟨h.counter, h.nodup.erase id, h.pending_erase hflush, h.ids_append hid hflush,
        h.blocks_update (by simp [Message.block]) pos,
        fun id' hmem => h.parts id' (List.mem_of_mem_erase hmem), h.fresh, by simp,
        hwrites.memory hinv h hfree⟩

lemma follows_leaveBlock (hinv : Inv (n.view saved handed)) (h : Files n saved) {bytes : Bytes}
    (hstep : n.step p (.leaveBlock bytes) = some (t, r)) : Follows n t saved handed r := by
  obtain ⟨pos, hwriting, heq⟩ := Option.map_eq_some_iff.mp hstep
  cases heq
  have hlength := h.blocks pos
  have hfree : n.message? (.tape pos) = none := if_pos (h.writing pos hwriting)
  have hzero : readInt ((n.tape pos).take 8 ++ bytes) 0 = 0 := by
    have hold := h.writing pos hwriting
    rw [readInt_zero_eq] at hold ⊢
    rw [List.take_append_of_le_length (by rw [List.length_take]; omega), List.take_take]
    exact hold
  have hwrites := writes_tape n pos ((n.tape pos).take 8 ++ bytes) n.pending none n.told
  rw [inBlock, if_pos hzero] at hwrites
  refine follows_blank hwrites hfree ⟨h.counter, h.nodup, h.pending, h.ids,
    h.blocks_update ?_ pos, h.parts, h.fresh, by simp, hwrites.memory hinv h hfree⟩
  rw [List.length_append, List.length_take]
  omega

/-- What is behind the length is not empty, whether the file is begun or goes on. -/
lemma Files.written (h : Files n saved) (hid : id ∈ n.pending) (e : FlushEntity) (c : Copied)
    (time : Bytes) : 0 < (n.written p id e c time).length := by
  unfold Queue.written
  cases hcontent : n.mess id with
  | none =>
    have := length_head e p.hostId time
    simp only [List.length_append]
    omega
  | some content =>
    obtain ⟨text, rfl, htext⟩ := h.parts id hid content hcontent
    have := List.length_pos_iff.mpr htext
    simp only [List.drop_left' (length_le 8 0), List.length_append]
    omega

/-- The file of a number that is not used any more changes nothing for the others. -/
lemma Files.parts_erase (h : Files n saved) (id : ℕ) (x : Option Bytes) :
    ∀ id' ∈ n.pending.erase id, ∀ content, Function.update n.mess id x id' = some content →
      ∃ text, content = le 8 0 ++ text ∧ text ≠ [] := by
  intro id' hmem content hcontent
  obtain ⟨hne, hmem⟩ := h.nodup.mem_erase_iff.mp hmem
  rw [Function.update_of_ne hne] at hcontent
  exact h.parts id' hmem content hcontent

lemma Files.fresh_update (h : Files n saved) (hid : id ∈ n.pending) (x : Option Bytes) :
    ∀ id', n.currentId < id' → Function.update n.mess id x id' = none := by
  intro id' hfresh
  have hne : id' ≠ id := by
    have := (h.pending id hid).1
    omega
  exact (Function.update_of_ne hne _ _).trans (h.fresh id' hfresh)

lemma follows_savePart (hinv : Inv (n.view saved handed)) (h : Files n saved) {e : FlushEntity}
    {c : Copied} {time : Bytes} (hstep : n.step p (.savePart id e c time) = some (t, r)) :
    Follows n t saved handed r := by
  dsimp only [Queue.step] at hstep
  split_ifs at hstep with hid
  cases hstep
  have hwrites := writes_mess n id (some (le 8 0 ++ n.written p id e c time)) n.pending n.told
  rw [complete_part] at hwrites
  refine follows_blank hwrites (h.free hid) ⟨h.counter, h.nodup, h.pending, h.ids, h.blocks,
    fun id' hmem content hcontent => ?_, h.fresh_update hid _, h.writing,
    hwrites.memory hinv h (h.free hid)⟩
  by_cases heq : id' = id
  · subst heq
    cases (Function.update_self id' _ n.mess).symm.trans hcontent
    exact ⟨_, rfl, List.length_pos_iff.mp (h.written hid e c time)⟩
  · exact h.parts id' hmem content ((Function.update_of_ne heq _ _).symm.trans hcontent)

lemma follows_saveMess (hinv : Inv (n.view saved handed)) (h : Files n saved) {e : FlushEntity}
    {c : Copied} {time : Bytes} {told : Bool}
    (hstep : n.step p (.saveMess id e c time told) = some (t, r)) :
    Follows n t saved handed r := by
  dsimp only [Queue.step] at hstep
  split_ifs at hstep with hguard
  obtain ⟨hid, hfits⟩ := not_or.mp hguard
  rw [not_not] at hid
  have hcounter := h.counter
  have hle := (h.pending id hid).1
  have hsound := sound_message e id (by omega) (h.written (p := p) hid e c time)
    (not_le.mp hfits)
  generalize hm : e.message id (n.written p id e c time) = m at hsound hstep
  have hflush : m.flushId = id := by
    rw [← hm]
    rfl
  cases hstep
  have hwrites := writes_mess n id (some m.block) (n.pending.erase id) (n.tell told (.mess id))
  rw [complete_block hsound] at hwrites
  exact follows_save hwrites (h.free hid) (h.new hid hflush)
    ⟨h.counter, h.nodup.erase id, h.pending_erase hflush, h.ids_append hid hflush, h.blocks,
      h.parts_erase id _, h.fresh_update hid _, h.writing, hwrites.memory hinv h (h.free hid)⟩

lemma follows_dropMess (hinv : Inv (n.view saved handed)) (h : Files n saved)
    (hstep : n.step p (.dropMess id) = some (t, r)) : Follows n t saved handed r := by
  dsimp only [Queue.step] at hstep
  split_ifs at hstep with hid
  cases hstep
  have hwrites := writes_mess n id none (n.pending.erase id) n.told
  exact follows_blank hwrites (h.free hid) ⟨h.counter, h.nodup.erase id,
    fun id' hmem => h.pending id' (List.mem_of_mem_erase hmem), h.ids, h.blocks,
    h.parts_erase id _, h.fresh_update hid _, h.writing, hwrites.memory hinv h (h.free hid)⟩

/-! ### The delivery -/

lemma follows_query {pl : Place} (told : List Place) (h : Files n saved)
    (hidle : n.loader = .idle) : Follows n ({ n with told }.query pl) saved handed .nothing := by
  unfold Queue.query
  split_ifs with hhash
  · exact follows_nothing (.inl rfl) (h.congr rfl rfl rfl rfl rfl fun _ hmem => hmem)
  · exact follows_nothing (.inr (.query hidle hhash))
      (h.congr rfl rfl rfl rfl rfl fun _ hmem => hmem)

lemma follows_receive (h : Files n saved) (hstep : n.step p .receive = some (t, r)) :
    Follows n t saved handed r := by
  dsimp only [Queue.step] at hstep
  split at hstep
  · cases hstep
  · split_ifs at hstep with hidle
    cases hstep
    exact follows_query _ h hidle

lemma follows_scan {pl : Place} (h : Files n saved) (hstep : n.step p (.scan pl) = some (t, r)) :
    Follows n t saved handed r := by
  dsimp only [Queue.step] at hstep
  split_ifs at hstep with hseen
  cases hstep
  exact follows_query n.told h hseen.1

lemma follows_idle {pl : Place} (h : Files n saved) (hreading : n.loader = .reading pl) (mem : ℕ) :
    Follows n { n with loader := .idle, currentMem := mem } saved handed .nothing :=
  follows_nothing (.inr (.giveUp hreading)) (h.congr rfl rfl rfl rfl rfl fun _ hmem => hmem)

lemma follows_putToUsed {node : Node} (h : Files n saved)
    (hreading : n.loader = .reading node.place) (hm : n.message? node.place = some m)
    (hread : retrieveToMessage (n.memory node) = m) :
    Follows n (n.putToUsed node) saved handed .nothing := by
  refine follows_nothing (.inr ?_) ⟨h.counter, h.nodup, h.pending, h.ids, h.blocks, h.parts,
    h.fresh, h.writing, fun node' hmem m' hm' => ?_⟩
  · have hload := Step.load (s := n.view saved handed) hreading hm
    simp only [Queue.view, Queue.putToUsed, List.map_append, List.map_singleton]
    exact hload
  · by_cases heq : node' = node
    · subst heq
      exact hread.trans (Option.some.inj (hm.symm.trans hm'))
    · refine h.memory node' ?_ m' hm'
      simp only [Queue.putToUsed, List.mem_append, List.mem_singleton] at hmem ⊢
      tauto

lemma follows_load {ok : Bool} (h : Files n saved) (hstep : n.step p (.load ok) = some (t, r)) :
    Follows n t saved handed r := by
  dsimp only [Queue.step] at hstep
  split at hstep
  · rename_i pl hreading
    cases hstep
    unfold Queue.load
    cases pl with
    | tape pos =>
      dsimp only
      split_ifs with hno
      · exact follows_idle h hreading n.currentMem
      · obtain ⟨hused, -⟩ := not_or.mp hno
        refine follows_putToUsed h hreading (m := retrieveToMessage (n.tape pos)) (if_neg ?_) rfl
        simpa [Queue.unused] using hused
    | mess id =>
      dsimp only
      split
      · exact follows_idle h hreading n.currentMem
      · rename_i content hcontent
        split_ifs with hmem hfree hread
        · exact follows_idle h hreading n.currentMem
        · exact follows_idle h hreading _
        · exact follows_idle h hreading n.currentMem
        · obtain ⟨-, hne⟩ := not_or.mp hread
          refine follows_putToUsed h hreading (m := retrieveToMessage content) ?_ rfl
          change complete (n.mess id) = _
          rw [hcontent]
          exact if_neg (ofLE_take_ne_zero hne)
  · cases hstep

lemma mem_remember {pl : Place} (hroom : n.full p pl = false) (pl' : Place) :
    pl' ∈ n.remember p pl ↔ pl' = pl ∨ pl' ∈ n.hash := by
  unfold Queue.remember
  split_ifs with hold
  · have hmem : pl ∈ n.hash := hold.resolve_left (by simp [hroom])
    exact ⟨.inr, fun h => h.elim (fun heq => heq ▸ hmem) id⟩
  · exact List.mem_cons

lemma follows_add (h : Files n saved) (hroom : ∀ pl, n.loader = .adding pl → n.full p pl = false)
    (hstep : n.step p .add = some (t, r)) : Follows n t saved handed r := by
  dsimp only [Queue.step] at hstep
  split at hstep
  · rename_i pl hadding
    cases hstep
    exact follows_nothing (.inr (.add hadding (mem_remember (hroom pl hadding))))
      (h.congr rfl rfl rfl rfl rfl fun _ hmem => hmem)
  · cases hstep

lemma follows_get (hinv : Inv (n.view saved handed)) (h : Files n saved)
    (hstep : n.step p .get = some (t, r)) : Follows n t saved handed r := by
  dsimp only [Queue.step] at hstep
  split at hstep
  · cases hstep
  · rename_i node used hused
    cases hstep
    have hused' : (n.view saved handed).used = node.place :: used.map Node.place := by
      simp only [Queue.view, hused, List.map_cons]
    obtain ⟨m, hm⟩ := Option.isSome_iff_exists.mp (hinv.active node.place
      (List.mem_append_left _ (hused' ▸ List.mem_cons_self)))
    have hread := h.memory node (List.mem_append_left _ (hused ▸ List.mem_cons_self)) m hm
    rw [hread]
    refine ⟨.inr ?_, ?_⟩
    · have hget := Step.get (s := n.view saved handed) hused' hm
      simp only [Queue.view, Option.toList_some, Option.toList_none, List.append_nil,
        List.map_append, List.map_singleton]
      exact hget
    · simp only [Option.toList_none, List.append_nil]
      refine h.congr rfl rfl rfl rfl rfl fun node' hmem => ?_
      simp only [hused, List.mem_append, List.mem_cons] at hmem ⊢
      tauto

lemma map_erase_place {l : List Node} {node : Node} (hnodup : (l.map Node.place).Nodup)
    (hmem : node ∈ l) : (l.erase node).map Node.place = (l.map Node.place).erase node.place := by
  induction l with
  | nil => rfl
  | cons first rest ih =>
    rw [List.map_cons] at hnodup
    obtain ⟨hfirst, hrest⟩ := List.nodup_cons.mp hnodup
    by_cases heq : first = node
    · subst heq
      simp
    · have hin : node ∈ rest := (List.mem_cons.mp hmem).resolve_left fun h => heq h.symm
      have hne : first.place ≠ node.place := fun h => hfirst (h ▸ List.mem_map_of_mem hin)
      rw [List.erase_cons_tail (by simpa using heq), List.map_cons, List.map_cons,
        List.erase_cons_tail (by simpa using hne), ih hrest hin]

/-- The place is written, and the node is no longer one of those that are taken. -/
lemma clear_spec (h : Files n saved) (node : Node) :
    Writes { n with taken := n.taken.erase node, cleared := n.cleared ++ [node] } (n.clear node)
      node.place none ∧ Files (n.clear node) saved := by
  generalize hn : { n with taken := n.taken.erase node, cleared := n.cleared ++ [node] } = n'
  have h' : Files n' saved := by
    subst hn
    refine h.congr rfl rfl rfl rfl rfl fun node' hmem => ?_
    exact (List.mem_append.mp hmem).elim (List.mem_append_left _)
      fun hmem => List.mem_append_right _ (List.mem_of_mem_erase hmem)
  have hmemory {t : Queue} {pl : Place} (hwrites : Writes n' t pl none) :=
    h'.memory_update hwrites.message hwrites.tape fun node' hmem m hm => by
      rw [hwrites.nodes.1, hwrites.nodes.2] at hmem
      refine ⟨hmem, fun heq => ?_⟩
      rw [hwrites.message, heq, Function.update_self] at hm
      cases hm
  cases hplace : node.place with
  | tape pos =>
    have hclear : n.clear node =
        { n' with tape := Function.update n'.tape pos (le 4 0 ++ (n'.tape pos).drop 4) } := by
      subst hn
      simp only [Queue.clear, hplace]
    rw [hclear]
    have hwrites := writes_tape n' pos (le 4 0 ++ (n'.tape pos).drop 4) n'.pending n'.writing
      n'.told
    rw [inBlock, if_pos (readInt_zero_append _)] at hwrites
    refine ⟨hwrites, h'.counter, h'.nodup, h'.pending, h'.ids, h'.blocks_update ?_ pos, h'.parts,
      h'.fresh, fun pos' hpos' => ?_, hmemory hwrites⟩
    · have hlength := h'.blocks pos
      rw [List.length_append, length_le, List.length_drop]
      omega
    · by_cases hpos : pos' = pos
      · subst hpos
        simp only [Function.update_self, readInt_zero_append]
      · simpa only [Function.update_of_ne hpos] using h'.writing pos' hpos'
  | mess id =>
    have hclear : n.clear node = { n' with mess := Function.update n'.mess id none } := by
      subst hn
      simp only [Queue.clear, hplace]
    rw [hclear]
    have hwrites := writes_mess n' id none n'.pending n'.told
    have hless {id' : ℕ} {content : Bytes}
        (hcontent : Function.update n'.mess id none id' = some content) :
        n'.mess id' = some content := by
      by_cases heq : id' = id
      · rw [heq, Function.update_self] at hcontent
        cases hcontent
      · rwa [Function.update_of_ne heq] at hcontent
    refine ⟨hwrites, h'.counter, h'.nodup, h'.pending, h'.ids, h'.blocks,
      fun id' hid content hcontent => h'.parts id' hid content (hless hcontent),
      fun id' hid => ?_, h'.writing, hmemory hwrites⟩
    dsimp only
    rw [Function.update_apply, h'.fresh id' hid, ite_self]

lemma follows_clear {node : Node} (hinv : Inv (n.view saved handed)) (h : Files n saved)
    (hstep : n.step p (.clear node) = some (t, r)) : Follows n t saved handed r := by
  dsimp only [Queue.step] at hstep
  split_ifs at hstep with htaken
  cases hstep
  obtain ⟨hwrites, hfiles⟩ := clear_spec h node
  refine follows_nothing (.inr ?_) hfiles
  have hclear := Step.clear (s := n.view saved handed) (List.mem_map_of_mem htaken)
  have hnodup : (n.taken.map Node.place).Nodup :=
    (List.nodup_append.mp (List.nodup_append.mp hinv.nodup).1).2.1
  rw [hwrites.view, hwrites.message]
  simp only [Queue.view, List.map_append, List.map_singleton, map_erase_place hnodup htaken]
  exact hclear

lemma follows_forget {node : Node} (hinv : Inv (n.view saved handed)) (h : Files n saved)
    (hstep : n.step p (.forget node) = some (t, r)) : Follows n t saved handed r := by
  dsimp only [Queue.step] at hstep
  split_ifs at hstep with hcleared
  cases hstep
  refine follows_nothing (.inr ?_) (h.congr rfl rfl rfl rfl rfl fun _ hmem => hmem)
  have hforget := Step.forget (s := n.view saved handed) (List.mem_map_of_mem hcleared)
  have hnodup : (n.cleared.map Node.place).Nodup := (List.nodup_append.mp hinv.nodup).2.1
  simp only [Queue.view, map_erase_place hnodup hcleared]
  exact hforget

lemma follows_putToFree {node : Node} (h : Files n saved)
    (hstep : n.step p (.putToFree node) = some (t, r)) : Follows n t saved handed r := by
  dsimp only [Queue.step] at hstep
  split_ifs at hstep with hremoved
  cases hstep
  exact follows_nothing (.inl rfl) (h.congr rfl rfl rfl rfl rfl fun _ hmem => hmem)

/-- The counter of the numbers does not begin anew, and what is loaded can be remembered. -/
def Queue.Admits (p : Params) (n : Queue) (e : Event) : Prop :=
  (e = .newId → n.currentId ≠ 0x7FFFFFFF) ∧
    (e = .add → ∀ pl, n.loader = .adding pl → n.full p pl = false)

lemma follows_step (hinv : Inv (n.view saved handed)) (h : Files n saved)
    (hadmits : n.Admits p e) (hstep : n.step p e = some (t, r)) :
    Follows n t saved handed r := by
  cases e with
  | newId => exact follows_newId h (hadmits.1 rfl) hstep
  | findBlock => exact follows_findBlock h hstep
  | saveTape => exact follows_saveTape hinv h hstep
  | leaveBlock => exact follows_leaveBlock hinv h hstep
  | savePart => exact follows_savePart hinv h hstep
  | saveMess => exact follows_saveMess hinv h hstep
  | dropMess => exact follows_dropMess hinv h hstep
  | receive => exact follows_receive h hstep
  | scan => exact follows_scan h hstep
  | load => exact follows_load h hstep
  | add => exact follows_add h (hadmits.2 rfl) hstep
  | get => exact follows_get hinv h hstep
  | clear => exact follows_clear hinv h hstep
  | forget => exact follows_forget hinv h hstep
  | putToFree => exact follows_putToFree h hstep

end SteepSystem.MessageQueue
