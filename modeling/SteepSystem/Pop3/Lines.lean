import SteepSystem.Pop3.Session

/-!
What a session makes of the bytes that come: however they are cut into reads, the lines that are
executed are the first ones of what has come, without the blocks that had no line break.
-/

namespace SteepSystem.Pop3

open SteepSystem.Lib.CStrings SteepSystem.Lib.Runs

/-- What is taken out of the buffer at once: a line with its end, or a full buffer without one. -/
inductive Piece
  | line (text : Bytes)
  | dropped (block : Bytes)

namespace Piece

def bytes : Piece → Bytes
  | line text => text ++ [13, 10]
  | dropped block => block

def command : Piece → Option Bytes
  | line text => some (tempCommand text)
  | dropped _ => none

/-- The first line break is the one at the end. -/
def Proper : Piece → Prop
  | line text => ∀ rest, splitLine (text ++ [13, 10] ++ rest) = some (text, rest)
  | dropped block => block.length = 1024 ∧ splitLine block = none

end Piece

lemma splitLine_eq {buffer text rest : Bytes} (h : splitLine buffer = some (text, rest)) :
    buffer = text ++ [13, 10] ++ rest ∧ (Piece.line text).Proper := by
  induction buffer generalizing text with
  | nil => cases h
  | cons b buffer ih =>
    rw [splitLine] at h
    split_ifs at h with hbreak
    · cases h
      obtain ⟨rfl, hhead⟩ := hbreak
      obtain ⟨tail, rfl⟩ := List.head?_eq_some_iff.mp hhead
      exact ⟨rfl, fun rest => by simp [splitLine]⟩
    · obtain ⟨⟨text', rest'⟩, htext, heq⟩ := Option.map_eq_some_iff.mp h
      cases heq
      obtain ⟨rfl, hproper⟩ := ih htext
      refine ⟨rfl, fun rest => ?_⟩
      have hhead : (text' ++ [13, 10] ++ rest).head? = (text' ++ [13, 10] ++ rest').head? := by
        cases text' <;> rfl
      rw [List.cons_append, List.cons_append, splitLine, hhead, if_neg hbreak, hproper rest]
      rfl

variable {p : Params} {n t : Connection} {e : Event} {r : Record} {log : Log}

def Event.bytes : Event → Bytes
  | .received bytes _ => bytes
  | _ => []

/-- All bytes that have come, in their order. -/
def received (log : Log) : Bytes := log.flatMap fun i => i.1.bytes

/-- The lines that are executed, one after another. -/
def executed (log : Log) : List Bytes := log.filterMap fun i => i.2.line

/-- The pieces that are taken out by one step. -/
structure Takes (bytes : Bytes) (n t : Connection) (r : Record) (pieces : List Piece) : Prop where
  buffer : n.readBuffer ++ bytes = pieces.flatMap Piece.bytes ++ t.readBuffer
  line : r.line.toList = pieces.filterMap Piece.command
  proper : ∀ piece ∈ pieces, piece.Proper
  small : t.readBuffer.length < 1024

lemma Takes.nothing (hbytes : e.bytes = []) (hbuffer : t.readBuffer = n.readBuffer)
    (hline : r.line = none) (hsmall : n.readBuffer.length < 1024) : Takes e.bytes n t r [] :=
  ⟨by simp [hbytes, hbuffer], by simp [hline], nofun, hbuffer ▸ hsmall⟩

lemma takes_step (hsmall : n.readBuffer.length < 1024) (h : n.step p e = some (t, r)) :
    ∃ pieces, Takes e.bytes n t r pieces := by
  unfold Connection.step at h
  cases e with
  | handshake ok s =>
    dsimp only at h
    split_ifs at h <;> cases h
    · exact ⟨[], .nothing rfl rfl rfl hsmall⟩
    · exact ⟨[], .nothing rfl rfl rfl hsmall⟩
    · exact ⟨[], .nothing rfl rfl rfl hsmall⟩
  | written =>
    dsimp only at h
    split_ifs at h
    cases h
    exact ⟨[], .nothing rfl rfl rfl hsmall⟩
  | lost =>
    dsimp only at h
    split_ifs at h
    cases h
    exact ⟨[], .nothing rfl rfl rfl hsmall⟩
  | received bytes s =>
    dsimp only at h
    split_ifs at h with hreading hroom
    have hlength : (n.readBuffer ++ bytes).length ≤ 1024 := by
      rw [List.length_append]
      omega
    unfold Connection.receive at h
    dsimp only at h
    split at h
    · rename_i text rest hsplit
      obtain ⟨o, -, heq⟩ := Option.map_eq_some_iff.mp h
      cases heq
      obtain ⟨hbuffer, hproper⟩ := splitLine_eq hsplit
      refine ⟨[.line text], ⟨by simpa [Piece.bytes, Event.bytes] using hbuffer, rfl, ?_, ?_⟩⟩
      · intro piece hmem
        rw [List.mem_singleton.mp hmem]
        exact hproper
      · simp only [hbuffer, List.length_append, List.length_cons, List.length_nil] at hlength
        dsimp only
        omega
    · rename_i hsplit
      split_ifs at h with hfull <;> cases h
      · refine ⟨[.dropped (n.readBuffer ++ bytes)], ⟨by simp [Piece.bytes, Event.bytes], rfl, ?_,
          by simp⟩⟩
        intro piece hmem
        rw [List.mem_singleton.mp hmem]
        exact ⟨hfull, hsplit⟩
      · exact ⟨[], ⟨by simp [Event.bytes], rfl, nofun, lt_of_le_of_ne hlength hfull⟩⟩

lemma takes_session (h : Session p n log t) (hsmall : n.readBuffer.length < 1024) :
    ∃ pieces : List Piece,
      n.readBuffer ++ received log = pieces.flatMap Piece.bytes ++ t.readBuffer ∧
      executed log = pieces.filterMap Piece.command ∧ (∀ piece ∈ pieces, piece.Proper) ∧
      t.readBuffer.length < 1024 := by
  induction h with
  | nil n => exact ⟨[], by simp [received], rfl, nofun, hsmall⟩
  | @cons n m t i log _ hstep _ ih =>
    obtain ⟨first, htakes⟩ := takes_step hsmall hstep
    obtain ⟨rest, hbuffer, hlines, hproper, hlast⟩ := ih htakes.small
    refine ⟨first ++ rest, ?_, ?_, ?_, hlast⟩
    · calc n.readBuffer ++ received (i :: log)
          = (n.readBuffer ++ i.1.bytes) ++ received log := by simp [received]
        _ = first.flatMap Piece.bytes ++ (m.readBuffer ++ received log) := by
          rw [htakes.buffer, List.append_assoc]
        _ = (first ++ rest).flatMap Piece.bytes ++ t.readBuffer := by
          rw [hbuffer, List.flatMap_append, List.append_assoc]
    · calc executed (i :: log) = i.2.line.toList ++ executed log := by
            cases hline : i.2.line <;> simp [executed, hline]
        _ = (first ++ rest).filterMap Piece.command := by
          rw [htakes.line, hlines, List.filterMap_append]
    · intro piece hmem
      rcases List.mem_append.mp hmem with h | h
      · exact htakes.proper piece h
      · exact hproper piece h

/-- The bytes that have come are the executed lines and the dropped blocks, in their order, and what
is still in the buffer. -/
theorem executed_of_received {onSslPort : Bool} (h : Session p (.start onSslPort) log t) :
    ∃ pieces : List Piece, received log = pieces.flatMap Piece.bytes ++ t.readBuffer ∧
      executed log = pieces.filterMap Piece.command ∧ (∀ piece ∈ pieces, piece.Proper) ∧
      t.readBuffer.length < 1024 := takes_session h (by simp [Connection.start])

theorem executed_of_received_torn :
    ∃ (t : Connection) (log : Log), Session plainParams (.start false) log t ∧
      received log = bytes "USER u\r\nPA" ∧ executed log = [bytes "USER u"] ∧
      ∃ pieces : List Piece, received log = pieces.flatMap Piece.bytes ++ t.readBuffer ∧
        executed log = pieces.filterMap Piece.command ∧ (∀ piece ∈ pieces, piece.Proper) ∧
        t.readBuffer.length < 1024 := by
  have hfirst : (Connection.start false).step plainParams (said "USER u\r") =
      some ({ Connection.start false with readBuffer := bytes "USER u\r" }, ⟨none, []⟩) := by
    decide +kernel
  have hsecond : { Connection.start false with readBuffer := bytes "USER u\r" }.step plainParams
      (said "\nPA") = some ({ named with readBuffer := bytes "PA" }, accepted "USER u") := by
    decide +kernel
  have hsession : Session plainParams (.start false)
      [(said "USER u\r", ⟨none, []⟩), (said "\nPA", accepted "USER u")]
      { named with readBuffer := bytes "PA" } :=
    .cons trivial hfirst (.cons trivial hsecond (.nil _))
  exact ⟨_, _, hsession, by decide +kernel, by decide +kernel, executed_of_received hsession⟩

end SteepSystem.Pop3
