import Mathlib.Tactic
import SteepSystem.Lib.Bytes
import SteepSystem.Lib.CStrings

/-!
The greatest flush id that `message_enqueue.c` finds in the queue when it starts. A message in a
block of the tape begins with its length, a `size_t` of eight bytes, and the search takes it for
an `int`; so it reads the end of the mail where it means to read the flush id.
-/

namespace SteepSystem.MessageQueue

open SteepSystem.Lib.Bytes SteepSystem.Lib.CStrings

/-- An `int` at a place of the memory. -/
def readInt (mem : List UInt8) (pos : ℕ) : ℤ :=
  let n := ofLE ((mem.drop pos).take 4)
  if n < 2 ^ 31 then n else n - 2 ^ 32

/-- A file in the directory `mess`. -/
structure MessFile where
  name : List UInt8
  opens : Bool
  content : List UInt8
deriving DecidableEq

/-- The id of the message, which the file is named by. -/
def MessFile.id (f : MessFile) : ℤ := atoi f.name

structure Search where
  maxId : ℤ
  removed : List MessFile

/-- One block of the tape; `ptr + sizeof(int) + size` is read for the id. -/
def searchBlock (maxId : ℤ) (block : List UInt8) : ℤ :=
  let size := readInt block 0
  if size ≠ 0 then max maxId (readInt block (4 + size.toNat)) else maxId

/-- One entry of the directory. -/
def searchMess (s : Search) (f : MessFile) : Search :=
  if f.id > s.maxId then
    if f.opens = false then s
    else if f.content.length < 4 then s
    else if readInt f.content 0 ≠ 0 then { s with maxId := f.id }
    else { s with removed := f :: s.removed }
  else s

/-- `message_enqueue_retrieve_max_ID`, with the files that it removes. -/
def retrieveMaxId (tape : List (List UInt8)) (mess : List MessFile) : Search :=
  mess.foldl searchMess ⟨tape.foldl searchBlock 0, []⟩

/-- A complete message of the tape, as `message_enqueue_try_save_tape` lays it out: behind the
flush id come the bound type, the spam mark and the envelope. -/
structure TapeMessage where
  mail : List UInt8
  flushId : ℤ
  rest : List UInt8
  mail_pos : 0 < mail.length
  mail_fits : mail.length < 2 ^ 31

/-- The bytes of an `int`. -/
def leInt (n : ℤ) : List UInt8 := le 4 (n % 2 ^ 32).toNat

def TapeMessage.block (m : TapeMessage) : List UInt8 :=
  le 8 m.mail.length ++ m.mail ++ leInt m.flushId ++ m.rest

/-- What is read for the id of a tape message. -/
def TapeMessage.readId (m : TapeMessage) : ℤ := readInt m.block (4 + m.mail.length)

/-- A block of the tape. An unused one begins with a zero. -/
inductive Slot
  | unused (bytes : List UInt8) (zero : readInt bytes 0 = 0)
  | message (m : TapeMessage)

def Slot.block : Slot → List UInt8
  | .unused bytes _ => bytes
  | .message m => m.block

/-- A complete file begins with a length other than zero. -/
def MessFile.Complete (f : MessFile) : Prop :=
  8 ≤ f.content.length ∧ ofLE (f.content.take 8) ≠ 0

instance (f : MessFile) : Decidable f.Complete := inferInstanceAs (Decidable (_ ∧ _))

/-- The file can be opened, and the low half of its length is not zero. -/
def MessFile.Counts (f : MessFile) : Prop :=
  f.opens = true ∧ 4 ≤ f.content.length ∧ readInt f.content 0 ≠ 0

lemma readInt_zero_eq (mem : List UInt8) : readInt mem 0 = 0 ↔ ofLE (mem.take 4) = 0 := by
  have h := ofLE_lt (mem.take 4)
  have hlen : (mem.take 4).length ≤ 4 := List.length_take_le _ _
  have hpow := Nat.pow_le_pow_right (by norm_num : 0 < 256) hlen
  unfold readInt
  rw [List.drop_zero]
  dsimp only
  split_ifs <;> omega

/-- The length of a tape message is read right: its lower half holds all of it. -/
lemma TapeMessage.readInt_block (m : TapeMessage) : readInt m.block 0 = m.mail.length := by
  have htake : m.block.take 4 = le 4 m.mail.length := by
    simp [TapeMessage.block, le]
  have hval : ofLE (le 4 m.mail.length) = m.mail.length :=
    ofLE_le_of_lt (by have := m.mail_fits; omega)
  have hfits := m.mail_fits
  unfold readInt
  rw [List.drop_zero, htake, hval]
  dsimp only
  rw [if_pos hfits]

lemma le_searchBlocks_iff (slots : List Slot) (start n : ℤ) :
    n ≤ (slots.map Slot.block).foldl searchBlock start ↔
      n ≤ start ∨ ∃ m, Slot.message m ∈ slots ∧ n ≤ m.readId := by
  induction slots generalizing start with
  | nil => simp
  | cons slot slots ih =>
    rw [List.map_cons, List.foldl_cons, ih]
    cases slot with
    | unused bytes zero => simp [searchBlock, Slot.block, zero]
    | message m =>
      have hpos : (m.mail.length : ℤ) ≠ 0 := by
        have := m.mail_pos
        omega
      have hstep : searchBlock start (Slot.message m).block = max start m.readId := by
        simp only [searchBlock, Slot.block, m.readInt_block]
        rw [if_pos hpos, Int.toNat_natCast, TapeMessage.readId]
      rw [hstep, le_max_iff]
      constructor
      · rintro ((h | h) | ⟨m', hmem, h⟩)
        · exact Or.inl h
        · exact Or.inr ⟨m, List.mem_cons_self, h⟩
        · exact Or.inr ⟨m', List.mem_cons_of_mem _ hmem, h⟩
      · rintro (h | ⟨m', hmem, h⟩)
        · exact Or.inl (Or.inl h)
        · rcases List.mem_cons.1 hmem with heq | hmem
          · obtain rfl := Slot.message.inj heq
            exact Or.inl (Or.inr h)
          · exact Or.inr ⟨m', hmem, h⟩

/-- One entry raises the greatest id to its own if it counts. -/
lemma le_searchMess_iff (s : Search) (f : MessFile) (n : ℤ) :
    n ≤ (searchMess s f).maxId ↔ n ≤ s.maxId ∨ f.Counts ∧ n ≤ f.id := by
  have hthis : ¬ f.Counts → (n ≤ s.maxId ↔ n ≤ s.maxId ∨ f.Counts ∧ n ≤ f.id) := fun h =>
    (or_iff_left fun hand => h hand.1).symm
  unfold searchMess
  split_ifs with hgt hopens hlen hint
  · exact hthis fun h => absurd (hopens.symm.trans h.1) (by simp)
  · exact hthis fun h => absurd h.2.1 (not_le.2 hlen)
  · have hcounts : f.Counts := ⟨by simpa using hopens, not_lt.1 hlen, hint⟩
    simp only [hcounts, true_and]
    omega
  · exact hthis fun h => hint h.2.2
  · constructor
    · exact Or.inl
    · rintro (h | ⟨-, h⟩)
      · exact h
      · exact h.trans (not_lt.1 hgt)

lemma le_searchAll_iff (s : Search) (mess : List MessFile) (n : ℤ) :
    n ≤ (mess.foldl searchMess s).maxId ↔
      n ≤ s.maxId ∨ ∃ f ∈ mess, f.Counts ∧ n ≤ f.id := by
  induction mess generalizing s with
  | nil => simp
  | cons f mess ih =>
    rw [List.foldl_cons, ih, le_searchMess_iff, List.exists_mem_cons_iff, or_assoc]

/-- A file is removed where it has a zero length and an id above all found before it. -/
lemma mem_removed_iff (s : Search) (mess : List MessFile) (f : MessFile) :
    f ∈ (mess.foldl searchMess s).removed ↔ f ∈ s.removed ∨
      ∃ before after, mess = before ++ f :: after ∧ f.opens = true ∧ 4 ≤ f.content.length ∧
        readInt f.content 0 = 0 ∧ (before.foldl searchMess s).maxId < f.id := by
  induction mess generalizing s with
  | nil => simp
  | cons g mess ih =>
    rw [List.foldl_cons, ih]
    have hstep : f ∈ (searchMess s g).removed ↔ f ∈ s.removed ∨ (f = g ∧ f.opens = true ∧
        4 ≤ f.content.length ∧ readInt f.content 0 = 0 ∧ s.maxId < f.id) := by
      unfold searchMess
      split_ifs with hgt hopens hlen hint
      · exact (or_iff_left (by rintro ⟨rfl, h, -⟩; simp [hopens] at h)).symm
      · exact (or_iff_left (by rintro ⟨rfl, -, h, -⟩; omega)).symm
      · exact (or_iff_left (by rintro ⟨rfl, -, -, h, -⟩; exact hint h)).symm
      · rw [List.mem_cons, or_comm]
        refine or_congr Iff.rfl ⟨?_, fun h => h.1⟩
        rintro rfl
        exact ⟨rfl, by simpa using hopens, not_lt.1 hlen, by simpa using hint, hgt⟩
      · exact (or_iff_left (by rintro ⟨rfl, -, -, -, h⟩; exact hgt h)).symm
    rw [hstep, or_assoc]
    refine or_congr Iff.rfl ?_
    constructor
    · rintro (⟨rfl, h⟩ | ⟨before, after, rfl, h⟩)
      · exact ⟨[], mess, rfl, h⟩
      · exact ⟨g :: before, after, rfl, h⟩
    · rintro ⟨before, after, heq, h⟩
      cases before with
      | nil =>
        obtain ⟨rfl, rfl⟩ := List.cons.inj heq
        exact Or.inl ⟨rfl, h⟩
      | cons b before =>
        obtain ⟨rfl, rfl⟩ := List.cons.inj heq
        exact Or.inr ⟨before, after, rfl, h⟩

/-- The search covers an id: something it reads is as great. -/
def Covered (slots : List Slot) (mess : List MessFile) (id : ℤ) : Prop :=
  id ≤ 0 ∨ (∃ m, Slot.message m ∈ slots ∧ id ≤ m.readId) ∨ ∃ f ∈ mess, f.Counts ∧ id ≤ f.id

lemma le_maxId_iff (slots : List Slot) (mess : List MessFile) (id : ℤ) :
    id ≤ (retrieveMaxId (slots.map Slot.block) mess).maxId ↔ Covered slots mess id := by
  rw [retrieveMaxId, le_searchAll_iff, le_searchBlocks_iff, or_assoc, Covered]

/-- What the search owes: no id of a complete message in the queue is greater than what it
returns, and no complete file is removed. -/
structure Recovers (slots : List Slot) (mess : List MessFile) : Prop where
  tape : ∀ m, Slot.message m ∈ slots →
    m.flushId ≤ (retrieveMaxId (slots.map Slot.block) mess).maxId
  files : ∀ f ∈ mess, f.Complete → f ∉ (retrieveMaxId (slots.map Slot.block) mess).removed →
    f.id ≤ (retrieveMaxId (slots.map Slot.block) mess).maxId
  removed : ∀ f ∈ (retrieveMaxId (slots.map Slot.block) mess).removed, ¬ f.Complete

/-- The contents of the queue that the search is right about. -/
structure Recoverable (slots : List Slot) (mess : List MessFile) : Prop where
  tape : ∀ m, Slot.message m ∈ slots → Covered slots mess m.flushId
  unopened : ∀ f ∈ mess, f.Complete → f.opens = false → Covered slots mess f.id
  huge : ∀ before f after, mess = before ++ f :: after → f.Complete → f.opens = true →
    readInt f.content 0 = 0 → Covered slots before f.id

lemma Covered.mono {slots : List Slot} {mess mess' : List MessFile} {id : ℤ}
    (h : Covered slots mess id) (hsub : mess ⊆ mess') : Covered slots mess' id :=
  h.imp_right <| Or.imp_right fun ⟨f, hf, h⟩ => ⟨f, hsub hf, h⟩

/-- The search is right exactly where each flush id of the tape is covered by something that is
read: the numbers found at the end of the mails, or the ids of files. -/
theorem recovers_iff (slots : List Slot) (mess : List MessFile) :
    Recovers slots mess ↔ Recoverable slots mess := by
  have hremoved (f : MessFile) : f ∈ (retrieveMaxId (slots.map Slot.block) mess).removed ↔
      ∃ before after, mess = before ++ f :: after ∧ f.opens = true ∧ 4 ≤ f.content.length ∧
        readInt f.content 0 = 0 ∧ ¬ Covered slots before f.id := by
    rw [retrieveMaxId, mem_removed_iff]
    simp only [← le_maxId_iff, retrieveMaxId, not_le, List.not_mem_nil, false_or]
  constructor
  · rintro ⟨htape, hmess, hrem⟩
    refine ⟨fun m hm => (le_maxId_iff _ _ _).1 (htape m hm), fun f hf hfull hopens => ?_, ?_⟩
    · refine (le_maxId_iff _ _ _).1 (hmess f hf hfull fun hgone => ?_)
      obtain ⟨_, _, _, hopened, _⟩ := (hremoved f).1 hgone
      exact absurd (hopens.symm.trans hopened) (by simp)
    · intro before f after heq hfull hopens hzero
      by_contra hnot
      refine hrem f ((hremoved f).2 ⟨before, after, heq, hopens, ?_, hzero, hnot⟩) hfull
      exact le_trans (by norm_num) hfull.1
  · rintro ⟨htape, hunopened, hhuge⟩
    refine ⟨fun m hm => (le_maxId_iff _ _ _).2 (htape m hm), fun f hf hfull _ => ?_, ?_⟩
    · rw [le_maxId_iff]
      rcases hopens : f.opens with _ | _
      · exact hunopened f hf hfull hopens
      · by_cases hzero : readInt f.content 0 = 0
        · obtain ⟨before, after, heq⟩ := List.append_of_mem hf
          refine (hhuge before f after heq hfull hopens hzero).mono ?_
          rw [heq]
          exact List.subset_append_left _ _
        · have h4 : 4 ≤ f.content.length := le_trans (by norm_num) hfull.1
          exact Or.inr (Or.inr ⟨f, hf, ⟨hopens, h4, hzero⟩, le_rfl⟩)
    · intro f hgone hfull
      obtain ⟨before, after, heq, hopens, -, hzero, hnot⟩ := (hremoved f).1 hgone
      exact hnot (hhuge before f after heq hfull hopens hzero)

/-- A mail of one header field and one line, with the flush id 200000000. -/
def lasthopMessage : TapeMessage where
  mail := [0x58, 0x2D, 0x4C, 0x61, 0x73, 0x74, 0x68, 0x6F, 0x70, 0x3A, 0x20, 0x31, 0x0D, 0x0A, 0x0D, 0x0A,
    0x68, 0x69, 0x0D, 0x0A]
  flushId := 200000000
  rest := [2, 0, 0, 0, 0, 0, 0, 0, 0x61, 0, 0x62, 0, 0]
  mail_pos := by decide
  mail_fits := by decide

/-- The search returns the last four characters of that mail, as a number that is less. -/
theorem retrieveMaxId_lasthop :
    (retrieveMaxId ([Slot.message lasthopMessage].map Slot.block) []).maxId = 168651112 ∧
      ¬ Recovers [Slot.message lasthopMessage] [] := by
  have hmax : (retrieveMaxId ([Slot.message lasthopMessage].map Slot.block) []).maxId =
      168651112 := by decide +kernel
  refine ⟨hmax, fun h => ?_⟩
  have := h.tape lasthopMessage (by simp)
  rw [hmax] at this
  exact absurd this (by decide)

end SteepSystem.MessageQueue
