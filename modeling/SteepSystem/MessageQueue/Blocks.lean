import SteepSystem.MessageQueue.MaxId

/-!
A message as `message_enqueue.c` lays it out, in a block of the tape or in a file, and as
`message_dequeue.c` and the transporter read it back. What stands behind it in a block does not
matter.
-/

namespace SteepSystem.MessageQueue

open SteepSystem.Lib.Bytes SteepSystem.Lib.CStrings

abbrev Bytes := List UInt8

/-- `MESSAGE`, with its strings in the place of the pointers to them. -/
structure Message where
  mail : Bytes
  flushId : ℤ
  boundType : ℤ
  isSpam : ℤ
  envelopFrom : Bytes
  envelopRcpt : List Bytes
  deriving DecidableEq

def cstring (s : Bytes) : Bytes := s ++ [0]

/-- What stands behind the mail. -/
def Message.tail (m : Message) : Bytes :=
  leInt m.flushId ++ leInt m.boundType ++ leInt m.isSpam ++ cstring m.envelopFrom ++
    (m.envelopRcpt.flatMap cstring ++ [0])

/-- The length comes first, where it is written last. -/
def Message.block (m : Message) : Bytes := le 8 m.mail.length ++ m.mail ++ m.tail

/-- The strings up to an empty one. -/
def readStrings : Bytes → Bytes → List Bytes
  | _, [] => []
  | s, c :: rest =>
    if c = 0 then if s = [] then [] else s :: readStrings [] rest else readStrings (s ++ [c]) rest

/-- `message_dequeue_retrieve_to_message`, and the recipients that the transporter takes. -/
def retrieveToMessage (inBuff : Bytes) : Message :=
  let mailLength := ofLE (inBuff.take 8)
  let envelop := inBuff.drop (8 + 3 * 4 + mailLength)
  { mail := (inBuff.drop 8).take mailLength
    flushId := readInt inBuff (8 + mailLength)
    boundType := readInt inBuff (8 + 4 + mailLength)
    isSpam := readInt inBuff (8 + 2 * 4 + mailLength)
    envelopFrom := cstr envelop
    envelopRcpt := readStrings [] (envelop.drop ((cstr envelop).length + 1)) }

def IsInt (n : ℤ) : Prop := -2 ^ 31 ≤ n ∧ n < 2 ^ 31

/-- What the server has made: the mail begins with the lines that are put in front of it, the
numbers are `int`s, and no string has a zero. -/
structure Message.Sound (m : Message) : Prop where
  mail_pos : 0 < m.mail.length
  mail_fits : m.mail.length < 2 ^ 64
  flushId : IsInt m.flushId
  boundType : IsInt m.boundType
  isSpam : IsInt m.isSpam
  sender : 0 ∉ m.envelopFrom
  rcpt : ∀ r ∈ m.envelopRcpt, r ≠ [] ∧ 0 ∉ r

lemma readInt_leInt {after : Bytes} {n : ℤ} (h : IsInt n) : readInt (leInt n ++ after) 0 = n := by
  have htake : ((leInt n ++ after).drop 0).take 4 = leInt n := List.take_left' (length_le 4 _)
  have hval : (ofLE (leInt n) : ℤ) = n % 2 ^ 32 := by
    have hmod : 0 ≤ n % 2 ^ 32 := Int.emod_nonneg _ (by norm_num)
    have hlt : n % 2 ^ 32 < 2 ^ 32 := Int.emod_lt_of_pos _ (by norm_num)
    rw [leInt, ofLE_le_of_lt (by omega), Int.toNat_of_nonneg hmod]
  unfold readInt
  rw [htake]
  dsimp only
  obtain ⟨hlow, hhigh⟩ := h
  split_ifs with hsmall
  all_goals
    rw [hval]
    rw [← Int.ofNat_lt, hval] at hsmall
    push_cast at hsmall
    omega

lemma readInt_skip {before l : Bytes} {pos : ℕ} (hpos : before.length = pos) (more : ℕ) :
    readInt (before ++ l) (pos + more) = readInt l more := by
  unfold readInt
  rw [← List.drop_drop, List.drop_left' hpos]

lemma cstr_cstring {s rest : Bytes} (h : 0 ∉ s) : cstr (cstring s ++ rest) = s := by
  unfold cstr cstring
  rw [List.append_assoc, List.takeWhile_append_of_pos]
  · simp
  · intro c hc
    have : c ≠ 0 := fun heq => h (heq ▸ hc)
    simpa using this

lemma readStrings_append {s rest : Bytes} (h : 0 ∉ s) (t : Bytes) :
    readStrings t (cstring s ++ rest) =
      if t ++ s = [] then [] else (t ++ s) :: readStrings [] rest := by
  induction s generalizing t with
  | nil => simp [cstring, readStrings]
  | cons c s ih =>
    rw [List.mem_cons, not_or] at h
    have hc : ¬ c = 0 := fun heq => h.1 heq.symm
    have h' := ih h.2 (t ++ [c])
    rw [List.append_assoc] at h'
    rw [← List.singleton_append, cstring, List.append_assoc, List.append_assoc,
      List.singleton_append, readStrings, if_neg hc]
    exact (List.append_assoc s [0] rest) ▸ h'

lemma readStrings_flatMap {l : List Bytes} (h : ∀ r ∈ l, r ≠ [] ∧ 0 ∉ r) (rest : Bytes) :
    readStrings [] (l.flatMap cstring ++ (0 :: rest)) = l := by
  induction l with
  | nil => simp [readStrings]
  | cons r l ih =>
    obtain ⟨hne, hclean⟩ := h r (by simp)
    rw [List.flatMap_cons, List.append_assoc, readStrings_append hclean, List.nil_append,
      if_neg hne, ih fun r hr => h r (List.mem_cons_of_mem _ hr)]

lemma ofLE_take_block (m : Message) (h : m.Sound) (rest : Bytes) :
    ofLE ((m.block ++ rest).take 8) = m.mail.length := by
  rw [Message.block, List.append_assoc, List.append_assoc, List.take_left' (length_le 8 _),
    ofLE_le_of_lt (by have := h.mail_fits; omega)]

/-- What has been laid out is read back, whatever stands behind it. -/
lemma retrieveToMessage_block {m : Message} (h : m.Sound) (rest : Bytes) :
    retrieveToMessage (m.block ++ rest) = m := by
  have hmail : ((m.block ++ rest).drop 8).take m.mail.length = m.mail := by
    rw [Message.block, List.append_assoc, List.append_assoc, List.drop_left' (length_le 8 _),
      List.take_left]
  -- The three numbers stand one behind the other.
  have hblock : m.block ++ rest = (le 8 m.mail.length ++ m.mail) ++ (leInt m.flushId ++
      (leInt m.boundType ++ (leInt m.isSpam ++ (cstring m.envelopFrom ++
        (m.envelopRcpt.flatMap cstring ++ (0 :: rest)))))) := by
    simp [Message.block, Message.tail]
  have hhead : (le 8 m.mail.length ++ m.mail).length = 8 + m.mail.length := by simp
  have hint (n : ℤ) : (leInt n).length = 4 := length_le 4 _
  have hflush : readInt (m.block ++ rest) (8 + m.mail.length) = m.flushId := by
    rw [hblock]
    exact (readInt_skip hhead 0).trans (readInt_leInt h.flushId)
  have hbound : readInt (m.block ++ rest) (8 + 4 + m.mail.length) = m.boundType := by
    rw [hblock, Nat.add_right_comm, readInt_skip hhead]
    exact (readInt_skip (hint _) 0).trans (readInt_leInt h.boundType)
  have hspam : readInt (m.block ++ rest) (8 + 2 * 4 + m.mail.length) = m.isSpam := by
    rw [hblock, Nat.add_right_comm, readInt_skip hhead]
    exact (readInt_skip (hint _) 4).trans
      ((readInt_skip (hint _) 0).trans (readInt_leInt h.isSpam))
  have henvelop : (m.block ++ rest).drop (8 + 3 * 4 + m.mail.length) =
      cstring m.envelopFrom ++ (m.envelopRcpt.flatMap cstring ++ (0 :: rest)) := by
    rw [hblock, Nat.add_right_comm, ← List.drop_drop, List.drop_left' hhead,
      ← List.append_assoc, ← List.append_assoc]
    exact List.drop_left' (by simp [hint])
  have hskip : (cstring m.envelopFrom ++ (m.envelopRcpt.flatMap cstring ++ (0 :: rest))).drop
      (m.envelopFrom.length + 1) = m.envelopRcpt.flatMap cstring ++ (0 :: rest) :=
    List.drop_left' (by simp [cstring])
  unfold retrieveToMessage
  dsimp only
  rw [ofLE_take_block m h, hmail, hflush, hbound, hspam, henvelop, cstr_cstring h.sender, hskip,
    readStrings_flatMap h.rcpt]

end SteepSystem.MessageQueue
