import Mathlib.Data.List.TakeWhile
import Mathlib.Tactic

/-!
The lines of a text, each ended by a carriage return, a line feed, or both in this order.
-/

namespace SteepSystem.Lib.Lines

variable {α : Type*} [DecidableEq α] (cr lf : α)

def IsEnd (c : α) : Prop := c = cr ∨ c = lf

instance (c : α) : Decidable (IsEnd cr lf c) := inferInstanceAs (Decidable (_ ∨ _))

/-- What follows a line that ends with this character. -/
def after (c : α) (rest : List α) : List α :=
  if c = cr ∧ rest.head? = some lf then rest.tail else rest

/-- The first line that is ended, and the text behind it. -/
def nextLine (text : List α) : Option (List α × List α) :=
  match text.dropWhile (fun c => !decide (IsEnd cr lf c)) with
  | [] => none
  | c :: rest => some (text.takeWhile (fun c => !decide (IsEnd cr lf c)), after cr lf c rest)

variable {cr lf}

lemma length_after_le (c : α) (rest : List α) : (after cr lf c rest).length ≤ rest.length := by
  unfold after
  split_ifs
  · rw [List.length_tail]
    omega
  · exact le_rfl

lemma nextLine_length {text line rest : List α} (h : nextLine cr lf text = some (line, rest)) :
    rest.length < text.length := by
  have hsub := (@List.dropWhile_suffix _ text (fun c => !decide (IsEnd cr lf c))).length_le
  rw [nextLine] at h
  cases hdrop : text.dropWhile (fun c => !decide (IsEnd cr lf c)) with
  | nil =>
    rw [hdrop] at h
    cases h
  | cons c rest' =>
    rw [hdrop] at h hsub
    cases h
    have := @length_after_le _ _ cr lf c rest'
    rw [List.length_cons] at hsub
    omega

variable (cr lf)

/-- All lines that are ended. -/
def lines (text : List α) : List (List α) :=
  match _h : nextLine cr lf text with
  | none => []
  | some (line, rest) => line :: lines rest
termination_by text.length
decreasing_by exact nextLine_length _h

variable {cr lf}

lemma nextLine_none {text : List α} (h : ∀ c ∈ text, ¬ IsEnd cr lf c) :
    nextLine cr lf text = none := by
  rw [nextLine, List.dropWhile_eq_nil_iff.mpr (by simpa using h)]

lemma nextLine_append {line rest : List α} {c : α} (h : ∀ c ∈ line, ¬ IsEnd cr lf c)
    (hc : IsEnd cr lf c) :
    nextLine cr lf (line ++ c :: rest) = some (line, after cr lf c rest) := by
  have hline : ∀ x ∈ line, (fun c => !decide (IsEnd cr lf c)) x = true := by simpa using h
  have hdrop : (line ++ c :: rest).dropWhile (fun c => !decide (IsEnd cr lf c)) = c :: rest := by
    rw [List.dropWhile_append_of_pos hline, List.dropWhile_cons]
    simp [hc]
  have htake : (line ++ c :: rest).takeWhile (fun c => !decide (IsEnd cr lf c)) = line := by
    rw [List.takeWhile_append_of_pos hline, List.takeWhile_cons]
    simp [hc]
  rw [nextLine, hdrop, htake]

lemma lines_none {text : List α} (h : ∀ c ∈ text, ¬ IsEnd cr lf c) : lines cr lf text = [] := by
  rw [lines]
  split
  · rfl
  · rename_i heq
    rw [nextLine_none h] at heq
    cases heq

lemma lines_append {line rest : List α} {c : α} (h : ∀ c ∈ line, ¬ IsEnd cr lf c)
    (hc : IsEnd cr lf c) :
    lines cr lf (line ++ c :: rest) = line :: lines cr lf (after cr lf c rest) := by
  rw [lines]
  split
  · rename_i heq
    rw [nextLine_append h hc] at heq
    cases heq
  · rename_i heq
    rw [nextLine_append h hc] at heq
    cases heq
    rfl

variable (cr lf) in
/-- The position behind a line whose end is at `pos`. -/
def past (text : List α) (pos : ℕ) : ℕ :=
  if text[pos]? = some cr ∧ text[pos + 1]? = some lf then pos + 2 else pos + 1

lemma after_drop {text : List α} {pos : ℕ} {c : α} (hc : text[pos]? = some c) :
    after cr lf c (text.drop (pos + 1)) = text.drop (past cr lf text pos) := by
  have hhead : (text.drop (pos + 1)).head? = text[pos + 1]? := by
    rw [List.head?_drop]
  unfold after past
  rw [hhead]
  by_cases h : c = cr ∧ text[pos + 1]? = some lf
  · rw [if_pos h, if_pos ⟨by rw [hc, h.1], h.2⟩, List.tail_drop]
  · rw [if_neg h, if_neg fun hp => h ⟨Option.some.inj (hc.symm.trans hp.1), hp.2⟩]

omit [DecidableEq α] in
lemma drop_split {text : List α} {read pos : ℕ} {c : α} (hle : read ≤ pos)
    (hpos : text[pos]? = some c) :
    text.drop read = (text.drop read).take (pos - read) ++ c :: text.drop (pos + 1) := by
  obtain ⟨hlt, rfl⟩ := List.getElem?_eq_some_iff.mp hpos
  have hdrop : text.drop pos = (text.drop read).drop (pos - read) := by
    rw [List.drop_drop, Nat.add_sub_cancel' hle]
  rw [← List.drop_eq_getElem_cons hlt, hdrop, List.take_append_drop]

omit [DecidableEq α] in
lemma not_isEnd_take {text : List α} {read pos : ℕ}
    (hline : ∀ i, read ≤ i → i < pos → ∀ x, text[i]? = some x → ¬ IsEnd cr lf x) :
    ∀ x ∈ (text.drop read).take (pos - read), ¬ IsEnd cr lf x := by
  intro x hx
  obtain ⟨i, hi, rfl⟩ := List.getElem_of_mem hx
  have hi' := hi
  rw [List.length_take, List.length_drop] at hi'
  rw [List.getElem_take, List.getElem_drop]
  exact hline (read + i) (by omega) (by omega) _ (List.getElem?_eq_getElem _)

lemma lines_drop {text : List α} {read pos : ℕ} {c : α} (hle : read ≤ pos)
    (hpos : text[pos]? = some c) (hc : IsEnd cr lf c)
    (hline : ∀ i, read ≤ i → i < pos → ∀ x, text[i]? = some x → ¬ IsEnd cr lf x) :
    lines cr lf (text.drop read) =
      (text.drop read).take (pos - read) :: lines cr lf (text.drop (past cr lf text pos)) := by
  conv_lhs => rw [drop_split hle hpos]
  rw [lines_append (not_isEnd_take hline) hc, after_drop hpos]

@[simp] lemma lines_nil : lines cr lf ([] : List α) = [] := lines_none (by simp)

/-! ### The last line, which is not ended -/

variable (cr lf)

def lastLine (text : List α) : List α :=
  match _h : nextLine cr lf text with
  | none => text
  | some (_, rest) => lastLine rest
termination_by text.length
decreasing_by exact nextLine_length _h

variable {cr lf}

lemma lastLine_none {text : List α} (h : ∀ c ∈ text, ¬ IsEnd cr lf c) :
    lastLine cr lf text = text := by
  rw [lastLine]
  split
  · rfl
  · rename_i heq
    rw [nextLine_none h] at heq
    cases heq

lemma lastLine_append {line rest : List α} {c : α} (h : ∀ c ∈ line, ¬ IsEnd cr lf c)
    (hc : IsEnd cr lf c) :
    lastLine cr lf (line ++ c :: rest) = lastLine cr lf (after cr lf c rest) := by
  rw [lastLine]
  split
  · rename_i heq
    rw [nextLine_append h hc] at heq
    cases heq
  · rename_i heq
    rw [nextLine_append h hc] at heq
    cases heq
    rfl

/-! ### Reading with a buffer -/

inductive Status
  | ended
  | part
  | last
  | nothing
  deriving DecidableEq

variable (cr lf) in
/-- What is read of a text into a buffer of this size, and what is left of it. -/
inductive Piece (size : ℕ) : List α → Status → List α → List α → Prop
  | ended {bytes rest : List α} {c : α} (line : ∀ c ∈ bytes, ¬ IsEnd cr lf c) (ends : IsEnd cr lf c)
    (fits : bytes.length ≤ size) :
    Piece size (bytes ++ c :: rest) .ended bytes (after cr lf c rest)
  | part {bytes rest : List α} (line : ∀ c ∈ bytes, ¬ IsEnd cr lf c) (full : bytes.length = size)
    (goes : ∀ c ∈ rest.head?, ¬ IsEnd cr lf c) (more : rest ≠ []) :
    Piece size (bytes ++ rest) .part bytes rest
  | last {bytes : List α} (line : ∀ c ∈ bytes, ¬ IsEnd cr lf c) (some : bytes ≠ [])
    (fits : bytes.length ≤ size) : Piece size bytes .last bytes []
  | nothing : Piece size [] .nothing [] []

lemma piece_ended {text : List α} {read pos size : ℕ} {c : α} (hle : read ≤ pos)
    (hpos : text[pos]? = some c) (hc : IsEnd cr lf c)
    (hline : ∀ i, read ≤ i → i < pos → ∀ x, text[i]? = some x → ¬ IsEnd cr lf x)
    (hfits : pos - read ≤ size) :
    Piece cr lf size (text.drop read) .ended ((text.drop read).take (pos - read))
      (text.drop (past cr lf text pos)) := by
  have hsplit := drop_split hle hpos
  have hpiece := @Piece.ended _ _ cr lf size _ (text.drop (pos + 1)) c (not_isEnd_take hline) hc
    ((List.length_take_le _ _).trans hfits)
  rwa [← hsplit, after_drop hpos] at hpiece

lemma piece_part {text : List α} {read size : ℕ} (hlt : read + size < text.length)
    (hline : ∀ i, read ≤ i → i ≤ read + size → ∀ x, text[i]? = some x → ¬ IsEnd cr lf x) :
    Piece cr lf size (text.drop read) .part ((text.drop read).take size)
      (text.drop (read + size)) := by
  have hnone : ∀ x ∈ (text.drop read).take size, ¬ IsEnd cr lf x := by
    have := @not_isEnd_take _ cr lf text read (read + size) fun i hri hi => hline i hri hi.le
    rwa [Nat.add_sub_cancel_left] at this
  have hpiece := @Piece.part _ _ cr lf size _ (text.drop (read + size)) hnone
    (by rw [List.length_take, List.length_drop]; omega) (by
      intro c hc
      rw [List.head?_drop] at hc
      exact hline _ (Nat.le_add_right _ _) le_rfl c hc)
    (List.ne_nil_of_length_pos (by rw [List.length_drop]; omega))
  rwa [← List.drop_drop, List.take_append_drop, List.drop_drop] at hpiece

lemma piece_last {text : List α} {read size : ℕ} (hlt : read < text.length)
    (hline : ∀ i, read ≤ i → ∀ x, text[i]? = some x → ¬ IsEnd cr lf x)
    (hfits : text.length - read ≤ size) :
    Piece cr lf size (text.drop read) .last (text.drop read) [] := by
  refine .last ?_ (List.ne_nil_of_length_pos (by rw [List.length_drop]; omega))
    (by rw [List.length_drop]; exact hfits)
  have := @not_isEnd_take _ cr lf text read text.length fun i hri _ => hline i hri
  rwa [List.take_of_length_le (by rw [List.length_drop])] at this

/-- The lines that a piece completes, and what has been read of the next one. -/
def collect (x : List (List α) × List α) (piece : Status × List α) : List (List α) × List α :=
  match piece.1 with
  | .ended => (x.1 ++ [x.2 ++ piece.2], [])
  | .part => (x.1, x.2 ++ piece.2)
  | .last => (x.1, x.2 ++ piece.2)
  | .nothing => x

variable (cr lf) in
/-- The lines read so far and what is left make up the text. -/
structure Collected (text : List α) (x : List (List α) × List α) (rest : List α) : Prop where
  lines : lines cr lf text = x.1 ++ lines cr lf (x.2 ++ rest)
  last : lastLine cr lf text = lastLine cr lf (x.2 ++ rest)
  line : ∀ c ∈ x.2, ¬ IsEnd cr lf c

lemma collected_nil (text : List α) : Collected cr lf text ([], []) text :=
  ⟨rfl, rfl, fun _ h => absurd h List.not_mem_nil⟩

lemma Piece.collected {text unread bytes rest : List α} {x : List (List α) × List α} {size : ℕ}
    {status : Status} (h : Piece cr lf size unread status bytes rest)
    (hx : Collected cr lf text x unread) : Collected cr lf text (collect x (status, bytes)) rest := by
  have hmem : ∀ {bytes : List α}, (∀ c ∈ bytes, ¬ IsEnd cr lf c) →
      ∀ c ∈ x.2 ++ bytes, ¬ IsEnd cr lf c := by
    intro bytes hbytes c hc
    rcases List.mem_append.mp hc with hc | hc
    · exact hx.line c hc
    · exact hbytes c hc
  cases h with
  | ended hline hends hfits =>
    refine ⟨?_, ?_, fun _ h => absurd h List.not_mem_nil⟩
    · rw [hx.lines, ← List.append_assoc, lines_append (hmem hline) hends]
      simp [collect]
    · rw [hx.last, ← List.append_assoc, lastLine_append (hmem hline) hends]
      rfl
  | part hline hfull hgoes hmore =>
    refine ⟨?_, ?_, hmem hline⟩
    · rw [hx.lines, ← List.append_assoc]
      rfl
    · rw [hx.last, ← List.append_assoc]
      rfl
  | last hline hsome hfits =>
    refine ⟨?_, ?_, hmem hline⟩
    · rw [hx.lines, ← List.append_nil (_ ++ unread)]
      rfl
    · rw [hx.last, ← List.append_nil (_ ++ unread)]
      rfl
  | nothing => exact hx

lemma Collected.first {text rest : List α} {x : List (List α) × List α}
    (h : Collected cr lf text x rest) : x.1 <+: Lines.lines cr lf text := by
  rw [h.lines]
  exact List.prefix_append _ _

/-- At the end of the text all lines have been read, and the last one is what is left over. -/
lemma Collected.nothing {text : List α} {x : List (List α) × List α}
    (h : Collected cr lf text x []) : x.1 = Lines.lines cr lf text ∧ x.2 = lastLine cr lf text := by
  obtain ⟨hlines, hlast, hline⟩ := h
  rw [List.append_nil] at hlines hlast
  rw [hlines, hlast, lines_none hline, lastLine_none hline, List.append_nil]
  exact ⟨rfl, rfl⟩

variable (cr lf) in
/-- Pieces read one after the other, with buffers of at least some size. -/
inductive Pieces (least : ℕ) (text : List α) : List (Status × List α) → List α → Prop
  | nil : Pieces least text [] text
  | snoc {pieces : List (Status × List α)} {unread bytes rest : List α} {status : Status}
    {size : ℕ} (before : Pieces least text pieces unread) (le : least ≤ size)
    (piece : Piece cr lf size unread status bytes rest) :
    Pieces least text (pieces ++ [(status, bytes)]) rest

variable {least : ℕ} {text rest : List α} {pieces : List (Status × List α)}

lemma Pieces.collected (h : Pieces cr lf least text pieces rest) :
    Collected cr lf text (pieces.foldl collect ([], [])) rest := by
  induction h with
  | nil => exact collected_nil text
  | snoc before le piece ih =>
    rw [List.foldl_append]
    exact piece.collected ih

lemma Piece.of_nil {size : ℕ} {status : Status} {bytes : List α}
    (h : Piece cr lf size [] status bytes rest) : status = .nothing ∧ rest = [] := by
  generalize hunread : ([] : List α) = unread at h
  cases h with
  | ended => simp at hunread
  | part _ _ _ hmore => exact absurd (List.append_eq_nil_iff.mp hunread.symm).2 hmore
  | last _ hsome => exact absurd hunread.symm hsome
  | nothing => exact ⟨rfl, rfl⟩

lemma Piece.length_lt {size : ℕ} {status : Status} {unread bytes : List α}
    (h : Piece cr lf size unread status bytes rest) (hsize : 0 < size) (hstatus : status ≠ .nothing) :
    rest.length < unread.length := by
  cases h with
  | @ended bytes rest c =>
    have := @length_after_le _ _ cr lf c rest
    rw [List.length_append, List.length_cons]
    omega
  | part _ hfull =>
    rw [List.length_append]
    omega
  | last _ hsome => exact List.length_pos_iff.mpr hsome
  | nothing => exact absurd rfl hstatus

lemma Pieces.eq_nil (h : Pieces cr lf least text pieces rest) {piece : Status × List α}
    (hmem : piece ∈ pieces) (hlast : piece.1 = .last ∨ piece.1 = .nothing) : rest = [] := by
  induction h with
  | nil => exact absurd hmem List.not_mem_nil
  | snoc before le next ih =>
    rcases List.mem_append.mp hmem with hold | hnew
    · have hnil := ih hold
      rw [hnil] at next
      exact next.of_nil.2
    · obtain rfl := List.mem_singleton.mp hnew
      cases next with
      | ended => simp at hlast
      | part => simp at hlast
      | last => rfl
      | nothing => rfl

/-- What has been read of the last line is nothing, unless it has been read as a last piece. -/
lemma Pieces.closed (h : Pieces cr lf least text pieces rest) (hrest : rest = [])
    (hno : ∀ bytes, (Status.last, bytes) ∉ pieces) : (pieces.foldl collect ([], [])).2 = [] := by
  induction h with
  | nil => rfl
  | snoc before le next ih =>
    rw [List.foldl_append]
    have hbefore : ∀ bytes, (Status.last, bytes) ∉ _ := fun bytes hmem =>
      hno bytes (List.mem_append_left _ hmem)
    cases next with
    | ended => rfl
    | part _ _ _ hmore => exact absurd hrest hmore
    | last => exact absurd (List.mem_append_right _ (List.mem_singleton_self _)) (hno _)
    | nothing => exact ih rfl hbefore

lemma Pieces.last_ne_nil (h : Pieces cr lf least text pieces rest) {bytes : List α}
    (hmem : (Status.last, bytes) ∈ pieces) : lastLine cr lf text ≠ [] := by
  induction h with
  | nil => exact absurd hmem List.not_mem_nil
  | snoc before le next ih =>
    rcases List.mem_append.mp hmem with hold | hnew
    · exact ih hold
    · have hcollected := (Pieces.snoc before le next).collected
      rw [List.foldl_append] at hcollected
      cases List.mem_singleton.mp hnew
      cases next with
      | last _ hsome =>
        rw [← hcollected.nothing.2]
        exact List.append_ne_nil_of_right_ne_nil _ hsome

/-- With buffers that take a byte each piece but the nothing at the end is a step on. -/
lemma Pieces.length_le (h : Pieces cr lf least text pieces rest) (hleast : 0 < least) :
    pieces.countP (·.1 ≠ .nothing) + rest.length ≤ text.length := by
  induction h with
  | nil => simp
  | @snoc pieces unread bytes rest status size before le next ih =>
    rw [List.countP_append, List.countP_singleton]
    by_cases hstatus : status = .nothing
    · subst hstatus
      cases next
      simpa using ih
    · have := next.length_lt (hleast.trans_le le) hstatus
      rw [if_pos (decide_eq_true hstatus)]
      omega

end SteepSystem.Lib.Lines
