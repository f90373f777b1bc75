import SteepSystem.RopBuffers.Model

/-!
The accesses of `rop_ext_pull_rop_buffer` and the handles of a request that is accepted. The size
of the payload comes from the header and is compared neither with the bytes that were received
nor with the staging buffer.
-/

namespace SteepSystem.RopBuffers.Bounds

open SteepSystem.Lib.Bytes SteepSystem.Lzxpress.Model SteepSystem.RopBuffers.Model

variable {ρ ε : Type} (pullRequest : List UInt8 → ℕ → Except ε (ρ × ℕ)) (alloc : ℕ → Bool)
variable (heap data : ℕ → UInt8) (dataSize : ℕ)

/-- The handles fill what the requests leave of the staged bytes: each is read from four bytes of
its own. -/
def Filled (fuel : ℕ) (b : RopBuffer ρ) : Prop :=
  ∃ h pbuff n offset, Taken data dataSize alloc h ∧ stage data heap h = some pbuff ∧
    let staged := (List.range h.sizeActual).map pbuff
    requestLoop pullRequest alloc staged (ofLE (staged.take 2)) fuel 0 2 [] =
        some (.ok (n, offset, b.ropList)) ∧
      b.handles = (List.range ((h.sizeActual - offset) / 4)).map fun i =>
        ofLE ((staged.drop (offset + 4 * i)).take 4)

/-- A call stays within the received bytes and the staging buffer, and comes to an end; where it
succeeds the handles are those that the bytes spell. -/
structure Guarded : Prop where
  reads : ∀ h, Taken data dataSize alloc h → ∀ i ∈ reads data h, i < dataSize
  writes : ∀ h, Taken data dataSize alloc h → ∀ j ∈ writes data h, j < sizeofBuff
  returns : ∃ n, ∀ fuel ≥ n, ∃ r,
    ropExtPullRopBuffer pullRequest alloc heap data dataSize fuel = some r ∧
      ∀ b, r = .ok b → Filled pullRequest alloc heap data dataSize fuel b

/-- What the header and the payload have to meet: bytes that are copied or obfuscated have been
received, a copy fits the staging buffer, and every token that the decompression begins has been
received. -/
structure Contained (h : RpcHeaderExt) : Prop where
  magic : h.flags &&& RHE_FLAG_XORMAGIC ≠ 0 → 8 + h.sizeActual ≤ dataSize
  copied : h.flags &&& RHE_FLAG_COMPRESSED = 0 →
    8 + h.sizeActual ≤ dataSize ∧ h.sizeActual ≤ sizeofBuff
  tokens : h.flags &&& RHE_FLAG_COMPRESSED ≠ 0 →
    ∀ d : Decoder, d.Reached (payload data h) h.size sizeofBuff →
      8 + (d.inputIndex + d.taken (payload data h)) ≤ dataSize

variable {pullRequest alloc heap data dataSize}

lemma sval_lt (pos : ℕ) : sval data pos < 65536 :=
  lt_of_lt_of_eq (ofLE_lt [data pos, data (pos + 1)]) (by norm_num)

lemma Taken.sizeActual_lt {h : RpcHeaderExt} (ht : Taken data dataSize alloc h) :
    8 ≤ dataSize ∧ h.sizeActual < 65536 := by
  have hpull := ht.1
  rw [extBufferPullRpcHeaderExt] at hpull
  split_ifs at hpull with hsize
  cases hpull
  exact ⟨by omega, sval_lt 6⟩

/-- The nibble that a length shares has been passed. -/
lemma nibble_lt {input : ℕ → UInt8} {inputSize maxOutputSize : ℕ} {d : Decoder}
    (h : d.Reached input inputSize maxOutputSize) : d.nibbleIndex ≠ 0 →
      d.nibbleIndex < d.inputIndex := by
  induction h with
  | start => exact fun h => absurd rfl h
  | turn _ _ ih => exact Decoder.nibble_step ih

lemma output_lt {input : ℕ → UInt8} {inputSize maxOutputSize : ℕ} {d : Decoder}
    (h : d.Reached input inputSize maxOutputSize) (hpos : 0 < maxOutputSize) :
    d.output.length < maxOutputSize := by
  cases h with
  | start => exact hpos
  | turn _ hgo => exact hgo.1

/-- The reads of a decompression stay below a bound if its tokens do. -/
lemma reads_lt_iff {input : ℕ → UInt8} {inputSize maxOutputSize : ℕ} {d : Decoder}
    (h : d.Reached input inputSize maxOutputSize) (bound : ℕ) :
    (∀ j ∈ d.reads input, 8 + j < bound) ↔ 8 + (d.inputIndex + d.taken input) ≤ bound := by
  have hpos : 0 < d.taken input := by
    unfold Decoder.taken
    dsimp only
    split_ifs <;> omega
  constructor
  · intro hall
    have := hall _ last_mem_reads
    omega
  · intro hle j hj
    rcases mem_reads hj with ⟨rfl, hne⟩ | ⟨-, hlt⟩
    · have := nibble_lt h hne
      omega
    · omega

lemma accesses_iff {h : RpcHeaderExt} (ht : Taken data dataSize alloc h) :
    ((∀ i ∈ reads data h, i < dataSize) ∧ ∀ j ∈ writes data h, j < sizeofBuff) ↔
      Contained data dataSize h := by
  have h8 := (Taken.sizeActual_lt ht).1
  have hrange : (∀ i, 8 ≤ i ∧ i < 8 + h.sizeActual → i < dataSize) ↔
      8 + h.sizeActual ≤ dataSize := by
    constructor
    · intro hall
      by_contra hlt
      have := hall (7 + h.sizeActual) (by omega)
      omega
    · intro hle i hi
      omega
  constructor
  · rintro ⟨hreads, hwrites⟩
    refine ⟨fun hx => hrange.mp fun i hi => hreads i (.inl ⟨hx, hi⟩), fun hc => ⟨?_, ?_⟩,
      fun hc d hd => ?_⟩
    · refine hrange.mp fun i hi => hreads i (.inr ?_)
      rw [if_neg (by simp [hc])]
      exact hi
    · by_contra hlt
      have := hwrites sizeofBuff (by
        rw [writes, if_neg (by simp [hc])]
        exact not_le.mp hlt)
      omega
    · refine (reads_lt_iff hd dataSize).mp fun j hj => hreads _ (.inr ?_)
      rw [if_pos hc]
      exact ⟨d, hd, j, hj, rfl⟩
  · intro hcon
    refine ⟨fun i hi => ?_, fun j hj => ?_⟩
    · rcases hi with ⟨hx, hi⟩ | hi
      · exact hrange.mpr (hcon.magic hx) i hi
      · by_cases hc : h.flags &&& RHE_FLAG_COMPRESSED ≠ 0
        · rw [if_pos hc] at hi
          obtain ⟨d, hd, j, hj, rfl⟩ := hi
          exact (reads_lt_iff hd dataSize).mpr (hcon.tokens hc d hd) j hj
        · rw [if_neg hc] at hi
          exact hrange.mpr (hcon.copied (not_not.mp hc)).1 i hi
    · rw [writes] at hj
      by_cases hc : h.flags &&& RHE_FLAG_COMPRESSED ≠ 0
      · rw [if_pos hc] at hj
        obtain ⟨d, hd, hj | ⟨c, hc, rfl⟩⟩ := hj
        · have hlt := output_lt hd (by decide)
          unfold Decoder.writes at hj
          split_ifs at hj
          · rwa [List.mem_singleton.mp hj]
          · cases hj
        · unfold Decoder.copies at hc
          dsimp only at hc
          split_ifs at hc
          · cases hc
          · exact (copies_safe hc).2.2
      · rw [if_neg hc] at hj
        exact lt_of_lt_of_le hj (hcon.copied (not_not.mp hc)).2

section Returns

variable {staged : List UInt8} {size fuel n offset : ℕ} {ropList : List ρ}

/-- The loop over the requests ends behind `size`, if every request moves on. -/
lemma requestLoop_returns
    (hmoves : ∀ data offset request offset',
      pullRequest data offset = .ok (request, offset') → offset < offset')
    (hfuel : size - offset < fuel) :
    ∃ r, requestLoop pullRequest alloc staged size fuel n offset ropList = some r ∧
      ∀ n' offset' ropList', r = .ok (n', offset', ropList') → size ≤ offset' := by
  induction fuel generalizing n offset ropList with
  | zero => omega
  | succ fuel ih =>
    rw [requestLoop]
    by_cases hlt : offset < size
    · rw [if_pos hlt]
      by_cases halloc : ¬ alloc (n + 1) ∨ ¬ alloc (n + 2)
      · rw [if_pos halloc]
        exact ⟨_, rfl, fun _ _ _ h => by cases h⟩
      · rw [if_neg halloc]
        cases hpull : pullRequest staged offset with
        | error e => exact ⟨_, rfl, fun _ _ _ h => by cases h⟩
        | ok r =>
          have := hmoves _ _ _ _ hpull
          exact ih (by omega)
    · rw [if_neg hlt]
      refine ⟨_, rfl, fun _ _ _ h => ?_⟩
      cases h
      omega

lemma handleLoop_some {hnum : ℕ} {phandles l : List ℕ}
    (h : handleLoop staged hnum offset phandles = some l) :
    (hnum = 0 ∨ offset + 4 * hnum ≤ staged.length) ∧
      l = phandles ++ (List.range hnum).map fun i =>
        ofLE ((staged.drop (offset + 4 * i)).take 4) := by
  induction hnum generalizing offset phandles with
  | zero =>
    cases h
    simp
  | succ hnum ih =>
    rw [handleLoop, pullUint32] at h
    by_cases hroom : staged.length < 4 ∨ staged.length < offset + 4
    · rw [if_pos hroom] at h
      cases h
    · rw [if_neg hroom] at h
      obtain ⟨hlen, hl⟩ := ih h
      refine ⟨.inr (by omega), ?_⟩
      rw [hl, List.range_succ_eq_map, List.map_cons, List.map_map, List.append_assoc,
        List.singleton_append]
      congr 2
      refine List.map_congr_left fun i _ => ?_
      rw [Function.comp_apply, show offset + 4 + 4 * i = offset + 4 * (i + 1) by omega]

lemma tmpNum_of_le {sizeActual : ℕ} (hle : size ≤ sizeActual) (hlt : sizeActual < 65536) :
    tmpNum sizeActual size = ((sizeActual - size) / 4 : ℕ) := by
  rw [tmpNum, Int.bmod_def]
  norm_num
  split_ifs <;> omega

lemma tmpNum_of_lt {sizeActual : ℕ} (hle : sizeActual < size) (hlt : size < 65536) :
    tmpNum sizeActual size < 0 := by
  rw [tmpNum, Int.bmod_def]
  norm_num
  split_ifs <;> omega

/-- The handles that are read fill the rest. -/
lemma pullHandles_ok {l : List ℕ} (h : (pullHandles alloc staged size n offset : Except (Status ε) _) = .ok l)
    (hsize : size ≤ offset) (hs : size < 65536) (hlt : staged.length < 65536) :
    l = (List.range ((staged.length - offset) / 4)).map fun i =>
      ofLE ((staged.drop (offset + 4 * i)).take 4) := by
  rw [pullHandles] at h
  have hnum : (size ≤ staged.length ∧
        tmpNum staged.length size = ((staged.length - size) / 4 : ℕ)) ∨
      (staged.length < size ∧ tmpNum staged.length size < 0) := by
    rcases Nat.lt_or_ge staged.length size with hl | hl
    · exact .inr ⟨hl, tmpNum_of_lt hl hs⟩
    · exact .inl ⟨hl, tmpNum_of_le hl hlt⟩
  generalize tmpNum staged.length size = num at h hnum
  by_cases hzero : num = 0
  · rw [if_pos hzero] at h
    cases h
    rw [show (staged.length - offset) / 4 = 0 by omega]
    rfl
  · rw [if_neg hzero] at h
    by_cases hbig : num > 255
    · rw [if_pos hbig] at h
      cases h
    · rw [if_neg hbig] at h
      by_cases halloc : ¬ alloc (n + 1)
      · rw [if_pos halloc] at h
        cases h
      · rw [if_neg halloc] at h
        cases hloop : handleLoop staged (num % 256).toNat offset [] with
        | none =>
          rw [hloop] at h
          cases h
        | some l' =>
          rw [hloop] at h
          cases h
          obtain ⟨hroom, rfl⟩ := handleLoop_some hloop
          rw [List.nil_append, show (num % 256).toNat = (staged.length - offset) / 4 by omega]

end Returns

lemma pullStaged_returns {h : RpcHeaderExt} {staged : List UInt8} {fuel : ℕ}
    (hmoves : ∀ data offset request offset',
      pullRequest data offset = .ok (request, offset') → offset < offset')
    (hlt : staged.length < 65536) (hfuel : 65536 ≤ fuel) :
    ∃ r, pullStaged pullRequest alloc staged h fuel = some r ∧
      ∀ b, r = .ok b → ∃ n offset,
        requestLoop pullRequest alloc staged (ofLE (staged.take 2)) fuel 0 2 [] =
            some (.ok (n, offset, b.ropList)) ∧
          b.handles = (List.range ((staged.length - offset) / 4)).map fun i =>
            ofLE ((staged.drop (offset + 4 * i)).take 4) := by
  rw [pullStaged]
  by_cases hshort : staged.length < 2
  · rw [if_pos hshort]
    exact ⟨_, rfl, fun _ h => by cases h⟩
  · rw [if_neg hshort]
    dsimp only
    have hsize : ofLE (staged.take 2) < 65536 := by
      refine lt_of_lt_of_le (ofLE_lt _) ?_
      rw [List.length_take, Nat.min_eq_left (by omega)]
      norm_num
    generalize ofLE (staged.take 2) = size at hsize ⊢
    obtain ⟨r, hloop, hend⟩ := @requestLoop_returns ρ ε pullRequest alloc staged size fuel 0 2 []
      hmoves (by omega)
    rw [hloop]
    rcases r with e | ⟨n, offset, ropList⟩
    · exact ⟨_, rfl, fun _ h => by cases h⟩
    · dsimp only
      cases hhandles : (pullHandles alloc staged size n offset : Except (Status ε) _) with
      | error e => exact ⟨_, rfl, fun _ h => by cases h⟩
      | ok phandles =>
        refine ⟨_, rfl, fun b hb => ?_⟩
        cases hb
        exact ⟨n, offset, rfl, pullHandles_ok hhandles (hend _ _ _ rfl) hsize hlt⟩

lemma pull_returns
    (hmoves : ∀ data offset request offset',
      pullRequest data offset = .ok (request, offset') → offset < offset') {fuel : ℕ}
    (hfuel : 65536 ≤ fuel) :
    ∃ r, ropExtPullRopBuffer pullRequest alloc heap data dataSize fuel = some r ∧
      ∀ b, r = .ok b → Filled pullRequest alloc heap data dataSize fuel b := by
  rw [ropExtPullRopBuffer]
  cases hheader : extBufferPullRpcHeaderExt data dataSize with
  | none => exact ⟨_, rfl, fun _ h => by cases h⟩
  | some h =>
    dsimp only
    by_cases hlast : h.flags &&& RHE_FLAG_LAST = 0
    · rw [if_pos hlast]
      exact ⟨_, rfl, fun _ h => by cases h⟩
    · rw [if_neg hlast]
      by_cases hsize : h.size = 0
      · rw [if_pos hsize]
        exact ⟨_, rfl, fun _ h => by cases h⟩
      · rw [if_neg hsize]
        by_cases halloc : ¬ alloc 0
        · rw [if_pos halloc]
          exact ⟨_, rfl, fun _ h => by cases h⟩
        · rw [if_neg halloc]
          have ht : Taken data dataSize alloc h := ⟨hheader, hlast, hsize, not_not.mp halloc⟩
          cases hstage : stage data heap h with
          | none => exact ⟨_, rfl, fun _ h => by cases h⟩
          | some pbuff =>
            dsimp only
            have hlen : ((List.range h.sizeActual).map pbuff).length = h.sizeActual := by simp
            obtain ⟨r, hr, hfill⟩ := @pullStaged_returns ρ ε pullRequest alloc h
              ((List.range h.sizeActual).map pbuff) fuel hmoves
              (by rw [hlen]; exact (Taken.sizeActual_lt ht).2) hfuel
            refine ⟨r, hr, fun b hb => ?_⟩
            obtain ⟨n, offset, hloop, hhandles⟩ := hfill b hb
            rw [hlen] at hhandles
            exact ⟨h, pbuff, n, offset, ht, hstage, hloop, hhandles⟩

/-- **Request buffers.** Over requests that move the cursor on, a call stays within the received
bytes and the staging buffer, ends, and reads exactly the handles that are there, if and only if
the payload that its header announces is contained in what was received and fits. -/
theorem pullRopBuffer_guarded_iff {ρ ε : Type} (pullRequest : List UInt8 → ℕ → Except ε (ρ × ℕ))
    (alloc : ℕ → Bool) (heap data : ℕ → UInt8) (dataSize : ℕ)
    (hmoves : ∀ data offset request offset',
      pullRequest data offset = .ok (request, offset') → offset < offset') :
    Guarded pullRequest alloc heap data dataSize ↔
      ∀ h, Taken data dataSize alloc h → Contained data dataSize h := by
  constructor
  · intro hg h ht
    exact (accesses_iff ht).mp ⟨hg.reads h ht, hg.writes h ht⟩
  · intro hcon
    exact ⟨fun h ht => ((accesses_iff ht).mpr (hcon h ht)).1,
      fun h ht => ((accesses_iff ht).mpr (hcon h ht)).2,
      65536, fun fuel hfuel => pull_returns hmoves hfuel⟩

/-- A request of the three bytes that all requests begin with, and no more. -/
def pullRelease (data : List UInt8) (offset : ℕ) : Except Unit (List UInt8 × ℕ) :=
  if offset + 3 ≤ data.length then .ok ((data.drop offset).take 3, offset + 3) else .error ()

lemma pullRelease_moves (data : List UInt8) (offset : ℕ) (request : List UInt8) (offset' : ℕ)
    (h : pullRelease data offset = .ok (request, offset')) : offset < offset' := by
  rw [pullRelease] at h
  split_ifs at h
  cases h
  omega

/-- A release and one handle. -/
def oneRelease (i : ℕ) : UInt8 :=
  [0, 0, 4, 0, 9, 0, 9, 0, 5, 0, 0x01, 0, 0, 7, 0, 0, 0].getD i 0

theorem pullRopBuffer_guarded_iff_release :
    Guarded pullRelease (fun _ => true) (fun _ => 0) oneRelease 17 ↔
      ∀ h, Taken oneRelease 17 (fun _ => true) h → Contained oneRelease 17 h :=
  pullRopBuffer_guarded_iff pullRelease (fun _ => true) (fun _ => 0) oneRelease 17
    pullRelease_moves

/-- A header that announces 65535 bytes, and nothing behind it. -/
def bareHeader (i : ℕ) : UInt8 := [0, 0, 4, 0, 1, 0, 255, 255].getD i 0

/-- The payload that is not there is copied, over the end of the staging buffer too. -/
theorem not_pullRopBuffer_guarded :
    Taken bareHeader 8 (fun _ => true) ⟨0, 4, 1, 65535⟩ ∧
      8 ∈ reads bareHeader ⟨0, 4, 1, 65535⟩ ∧ 65534 ∈ writes bareHeader ⟨0, 4, 1, 65535⟩ ∧
      ¬ Guarded pullRelease (fun _ => true) (fun _ => 0) bareHeader 8 := by
  have ht : Taken bareHeader 8 (fun _ => true) ⟨0, 4, 1, 65535⟩ :=
    ⟨by rfl, by decide, by decide, rfl⟩
  have hread : 8 ∈ reads bareHeader ⟨0, 4, 1, 65535⟩ := by
    refine .inr ?_
    rw [if_neg (by decide)]
    exact ⟨le_rfl, by norm_num⟩
  refine ⟨ht, hread, ?_, fun hg => ?_⟩
  · rw [writes, if_neg (by decide)]
    show 65534 < 65535
    norm_num
  · have hlt := hg.reads _ ht 8 hread
    omega

end SteepSystem.RopBuffers.Bounds
