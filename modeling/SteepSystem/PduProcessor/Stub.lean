import SteepSystem.PduProcessor.Model

/-!
The stub that the authentication leaves is no longer than the PDU it came with.
-/

namespace SteepSystem.PduProcessor

open SteepSystem.Ndr

/-! ### What a Pull Leaves -/

/-- A pull from `n` bytes of data leaves the data and returns a value with `P`. -/
def Gives {α : Type} (n : ℕ) (P : α → Prop) (pull : Pull α) : Prop :=
  ∀ s a t, s.data.length = n → pull s = .ok (a, t) → t.data.length = n ∧ P a

section Rules

variable {α β : Type} {n : ℕ} {P : α → Prop} {Q : β → Prop}

lemma Gives.pure {a : α} (h : P a) : Gives n P (pure a : Pull α) := by
  intro s b t hs heq
  cases heq
  exact ⟨hs, h⟩

lemma Gives.bind {pull : Pull α} {f : α → Pull β} (h : Gives n P pull)
    (hf : ∀ a, P a → Gives n Q (f a)) : Gives n Q (pull >>= f) := by
  intro s b t hs heq
  change (pull s >>= fun x => f x.1 x.2) = .ok (b, t) at heq
  cases hp : pull s with
  | error e => rw [hp] at heq; cases heq
  | ok x =>
    obtain ⟨a, u⟩ := x
    rw [hp] at heq
    obtain ⟨hu, ha⟩ := h s a u hs hp
    exact hf a ha u b t hu heq

lemma Gives.get {f : NdrPull → Pull β} (hf : ∀ s, s.data.length = n → Gives n Q (f s)) :
    Gives n Q (get >>= f) :=
  fun s b t hs heq => hf s hs s b t hs heq

lemma Gives.ite {c : Prop} [Decidable c] {pull other : Pull α} (h : Gives n P pull)
    (h' : Gives n P other) : Gives n P (if c then pull else other) := by
  split <;> assumption

lemma Gives.withFlags {f : Flags → Flags} {pull : Pull α} (h : Gives n P pull) :
    Gives n P (withFlags f pull) := by
  intro s a t hs heq
  change ((pull { s with flags := f s.flags }) >>= fun x =>
    (Except.ok (x.1, { x.2 with flags := s.flags }) : Except Err (α × NdrPull))) = .ok (a, t) at heq
  cases hp : pull { s with flags := f s.flags } with
  | error e => rw [hp] at heq; cases heq
  | ok x =>
    rw [hp] at heq
    cases heq
    exact h { s with flags := f s.flags } x.1 x.2 hs hp

end Rules

section Pulls

variable {n : ℕ}

lemma gives_pullBytes (k : ℕ) : Gives n (fun _ => True) (pullBytes k) := by
  intro s a t hs heq
  unfold pullBytes at heq
  split at heq
  · cases heq
  · split at heq
    · cases heq
      exact ⟨hs, trivial⟩
    · cases heq

lemma gives_pullAlign (size : ℕ) : Gives n (fun _ => True) (pullAlign size) := by
  intro s a t hs heq
  refine ⟨?_, trivial⟩
  simp only [pullAlign] at heq
  by_cases hn : s.flags.noAlign = true
  · rw [if_pos hn] at heq
    split at heq <;> cases heq
    exact hs
  · rw [if_neg hn] at heq
    by_cases hp : s.flags.padCheck = true
    · rw [if_pos hp] at heq
      cases hc : checkPadding s (s.flags.alignment size) with
      | error e => rw [hc] at heq; cases heq
      | ok u =>
        rw [hc] at heq
        change (if _ then _ else _) = _ at heq
        split at heq <;> cases heq
        exact hs
    · rw [if_neg hp] at heq
      change (if _ then _ else _) = _ at heq
      split at heq <;> cases heq
      exact hs

lemma gives_pullUnionAlign (size : ℕ) : Gives n (fun _ => True) (pullUnionAlign size) :=
  .get fun _ _ => .ite (gives_pullAlign size) (.pure trivial)

lemma gives_pullTrailerAlign (size : ℕ) : Gives n (fun _ => True) (pullTrailerAlign size) :=
  .get fun _ _ => .ite (gives_pullAlign size) (.pure trivial)

lemma gives_pullUint8 : Gives n (fun _ => True) pullUint8 :=
  (gives_pullBytes 1).bind fun _ _ => .pure trivial

lemma gives_pullFixed (k : ℕ) : Gives n (fun _ => True) (pullFixed k) :=
  (gives_pullBytes k).bind fun _ _ => .get fun _ _ => .pure trivial

lemma gives_pullUint16 : Gives n (fun _ => True) pullUint16 :=
  (gives_pullAlign 2).bind fun _ _ => (gives_pullFixed 2).bind fun _ _ => .pure trivial

lemma gives_pullUint32 : Gives n (fun _ => True) pullUint32 :=
  (gives_pullAlign 4).bind fun _ _ => (gives_pullFixed 4).bind fun _ _ => .pure trivial

lemma gives_pullGuid : Gives n (fun _ => True) pullGuid :=
  (gives_pullAlign 4).bind fun _ _ => gives_pullUint32.bind fun _ _ =>
  gives_pullUint16.bind fun _ _ => gives_pullUint16.bind fun _ _ =>
  (gives_pullBytes 2).bind fun _ _ => (gives_pullBytes 6).bind fun _ _ =>
  (gives_pullTrailerAlign 4).bind fun _ _ => .pure trivial

/-- A blob is no longer than the data. -/
lemma gives_pullBlob (k : ℕ) : Gives n (fun b => b.length ≤ n) (pullBlob k) := by
  intro s b t hs heq
  unfold pullBlob at heq
  split at heq
  · cases heq
  · rename_i hk
    split at heq
    · cases hp : pullBytes k s with
      | error e => rw [hp] at heq; cases heq
      | ok x =>
        rw [hp] at heq
        cases heq
        have := x.1.2
        exact ⟨(gives_pullBytes k s x.1 x.2 hs hp).1, by omega⟩
    · cases heq

lemma gives_pullDataBlob : Gives n (fun b => b.length ≤ n) pullDataBlob :=
  .get fun _ _ => .ite (gives_pullBlob _) <| .ite (gives_pullBlob _) <|
    .ite (gives_pullBlob _) <| .ite (gives_pullBlob _) <|
    gives_pullUint32.bind fun _ _ => gives_pullBlob _

end Pulls

/-! ### The Stub -/

variable {n : ℕ} {ν : Type}

lemma gives_pullDcerpcObject (objectPresent : Bool) :
    Gives n (fun _ => True) (pullDcerpcObject objectPresent) :=
  (gives_pullUnionAlign 4).bind fun _ _ =>
    .ite (gives_pullGuid.bind fun _ _ => .pure trivial) (.pure trivial)

lemma gives_pullDcerpcRequest (objectPresent : Bool) :
    Gives n (fun r => r.stubAndVerifier.length ≤ n) (pullDcerpcRequest objectPresent) :=
  (gives_pullAlign 4).bind fun _ _ => gives_pullUint32.bind fun _ _ =>
  gives_pullUint16.bind fun _ _ => gives_pullUint16.bind fun _ _ =>
  (gives_pullDcerpcObject objectPresent).bind fun _ _ =>
  gives_pullDataBlob.withFlags.bind fun _ _ =>
  gives_pullDataBlob.withFlags.bind fun _ hstub =>
  (gives_pullTrailerAlign 4).bind fun _ _ => .pure hstub

lemma gives_pullNcacnpkt (objectPresent : Bool) :
    Gives n (fun packet => ∀ r ∈ packet.2, r.stubAndVerifier.length ≤ n)
      (pullNcacnpkt objectPresent) := by
  have hpayload (pktType : UInt8) :
      Gives n (fun payload => ∀ r ∈ payload, r.stubAndVerifier.length ≤ n)
        (pullDcerpcPayload objectPresent pktType) := by
    refine (gives_pullUnionAlign 4).bind fun _ _ => .ite ?_ (.pure (by simp))
    exact (gives_pullDcerpcRequest objectPresent).bind fun r hr => .pure (by simpa using hr)
  exact (gives_pullAlign 4).bind fun _ _ => gives_pullUint8.bind fun _ _ =>
    gives_pullUint8.bind fun _ _ => gives_pullUint8.bind fun _ _ =>
    gives_pullUint8.bind fun _ _ => (gives_pullBytes 4).bind fun _ _ =>
    gives_pullUint16.bind fun _ _ => gives_pullUint16.bind fun _ _ =>
    gives_pullUint32.bind fun _ _ => (hpayload _).bind fun _ hr =>
    (gives_pullTrailerAlign 4).bind fun _ _ => .pure hr

lemma Pdu.pull_stub_length {p : Pdu} {pkt : NcacnPacket} {request : Request}
    (h : p.pull = some (pkt, some request)) : request.stubAndVerifier.length < 2 ^ 16 := by
  unfold Pdu.pull at h
  simp only at h
  split at h
  · cases h
  · rename_i packet s hp
    cases h
    exact lt_of_le_of_lt ((gives_pullNcacnpkt _ _ _ _ rfl hp).2 request rfl) p.length_lt

lemma removePadding_length {auth : Auth} {i k : ℕ} {data rest : List UInt8}
    (h : removePadding auth i data = some (k, rest)) : rest.length ≤ data.length := by
  unfold removePadding at h
  split at h <;> cases h
  exact List.length_take_le' ..

lemma authRequest_length {ntlmssp : Ntlmssp ν} {malloc : ℕ → Bool} {auths : List (AuthContext ν)}
    {pkt : NcacnPacket} {stub blob data : List UInt8} {i : ℕ}
    (h : (authRequest ntlmssp malloc auths pkt stub blob).1 = some (i, data)) :
    data.length ≤ stub.length := by
  have hpad {auth : Auth} {j k m : ℕ} {d : List UInt8} (hk : k ≤ stub.length)
      (h : removePadding auth j (d.take k) = some (m, data)) : data.length ≤ stub.length := by
    have := removePadding_length h
    have := List.length_take_le k d
    omega
  unfold authRequest at h
  split at h
  · -- no trailer
    split at h
    · cases h
    · split at h <;> cases h
      exact le_rfl
  · split at h
    · cases h
    · split at h
      · cases h
      · simp only at h
        split_ifs at h
        · cases h
          exact le_rfl
        · split at h
          · cases h
          · exact hpad (Nat.sub_le ..) h
        · split at h
          · cases h
          · exact hpad (Nat.sub_le ..) h
        · exact hpad (Nat.sub_le ..) h

end SteepSystem.PduProcessor
