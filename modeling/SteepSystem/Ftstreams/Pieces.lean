import SteepSystem.Ftstreams.Points

/-!
The pieces of a FastTransfer stream that a client asks for. However long they are, above a bound,
the producer has a point for each, and what it gives out is the stream.
-/

namespace SteepSystem.Ftstreams.Producer

open SteepSystem.ExtBuffer SteepSystem.Lib.Bytes

variable {pstream : Producer} {atoms : List Atom} {n k plen : ℕ}

/-- All bytes that are to be read. -/
def source (pstream : Producer) : Bytes :=
  match pstream.fd with
  | some f => f.content
  | none => pstream.buffer

/-- Between two reads, with `n` bytes read and `prev` the last point that has been dropped. -/
structure Reading (atoms : List Atom) (n : ℕ) (prev : PointNode) (pstream : Producer) : Prop where
  reading : pstream.bRead = true
  source : pstream.source = text atoms
  cur : pstream.curOffset = n
  chain : (prev :: pstream.bpList).IsChain (Follows atoms)
  passed : prev.offset ≤ n
  ahead : ∀ q ∈ pstream.bpList.head?, n < q.offset ∧ (q.type = .wstring → (n - prev.offset) % 2 = 0)
  last : pstream.bpList.getLast?.map PointNode.offset = some (text atoms).length

/-! ### The first read -/

lemma readBuffer_of_unread (h : pstream.bRead = false) :
    pstream.readBuffer plen = pstream.beginRead.readBuffer plen := by
  have hread : pstream.beginRead.bRead = true := rfl
  unfold readBuffer
  rw [h, hread]
  rfl

lemma recordEnd_eq (pstream : Producer) :
    pstream.recordEnd = pstream.recordNbp pstream.offset := by
  unfold recordEnd recordNbp isBehind
  cases h : pstream.bpList.getLast? with
  | none => rfl
  | some p =>
    by_cases hp : p.offset = pstream.offset
    · simp [hp]
    · simp [hp]

lemma recordNbp_eq (pstream : Producer) (n : ℕ) :
    ∃ bpList, pstream.recordNbp n = { pstream with bpList } := by
  unfold recordNbp
  split_ifs
  · exact ⟨_, rfl⟩
  · exact ⟨_, rfl⟩

lemma getLast?_recordNbp (hn : 0 < n) (h : pstream.lastSeek ≤ n) :
    (pstream.recordNbp n).bpList.getLast?.map PointNode.offset = some n := by
  have hseek := lastSeek_recordNbp hn h
  unfold lastSeek at hseek
  cases hlast : (pstream.recordNbp n).bpList.getLast? with
  | none =>
    rw [hlast] at hseek
    exact absurd hseek hn.ne
  | some p =>
    rw [hlast] at hseek
    exact congrArg some hseek

/-- With the end of the stream as a point the producer can be read. -/
lemma reading_beginRead (h : Written atoms [] pstream) (hpos : 0 < (text atoms).length) :
    Reading atoms 0 start pstream.beginRead := by
  have hoffset : pstream.offset = (text atoms).length := h.offset
  have hbehind := h.behind
  have hnear := h.near
  have hcontent : pstream.content = text atoms := by rw [h.content, List.append_nil]
  have hlist : pstream.beginRead.bpList = (pstream.recordNbp (text atoms).length).bpList := by
    change pstream.recordEnd.bpList = _
    rw [recordEnd_eq, hoffset]
  have hchain := chain_recordNbp hpos h.chain .whole (by unfold pointLength at hnear; omega)
  obtain ⟨bpList, hsame⟩ := recordNbp_eq pstream pstream.offset
  refine ⟨rfl, ?_, ?_, ?_, Nat.le_refl _, fun q hq => ⟨?_, fun _ => rfl⟩, ?_⟩
  · rw [← hcontent]
    unfold source content beginRead
    rw [recordEnd_eq, hsame]
    cases pstream.fd <;> rfl
  · have hfront := h.front
    unfold curOffset beginRead
    rw [recordEnd_eq, hsame]
    cases pstream.fd with
    | none => exact hfront
    | some f => rfl
  · rw [hlist]
    exact hchain
  · rw [hlist] at hq
    obtain ⟨l, hl⟩ : ∃ l, (pstream.recordNbp (text atoms).length).bpList = q :: l := by
      cases hcase : (pstream.recordNbp (text atoms).length).bpList with
      | nil => simp [hcase] at hq
      | cons q' l =>
        obtain rfl : q' = q := by simpa [hcase] using hq
        exact ⟨l, rfl⟩
    rw [hl] at hchain
    exact (List.isChain_cons_cons.mp hchain).1.lt
  · rw [hlist]
    exact getLast?_recordNbp hpos hbehind

/-! ### The points that are left -/

lemma head_lt {p q : PointNode} {l : List PointNode} (h : (p :: l).IsChain (Follows atoms))
    (hq : q ∈ l) : p.offset < q.offset := by
  induction l generalizing p with
  | nil => cases hq
  | cons p' l ih =>
    obtain ⟨hp, hl⟩ := List.isChain_cons_cons.mp h
    rcases List.mem_cons.mp hq with rfl | hq
    · exact hp.lt
    · exact hp.lt.trans (ih hl hq)

/-- The points are between what has been read and the end of the stream. -/
lemma Reading.between {prev q : PointNode} (h : Reading atoms n prev pstream)
    (hq : q ∈ pstream.bpList) : n < q.offset ∧ q.offset ≤ (text atoms).length := by
  have hchain := h.chain
  have hahead := h.ahead
  have hlast := h.last
  constructor
  · cases hl : pstream.bpList with
    | nil => simp [hl] at hq
    | cons p l =>
      rw [hl] at hq hchain hahead
      have hp := (hahead p rfl).1
      rcases List.mem_cons.mp hq with rfl | hq
      · exact hp
      · exact hp.trans (head_lt (List.isChain_cons_cons.mp hchain).2 hq)
  · obtain ⟨l, l', hl⟩ := List.append_of_mem hq
    rw [hl, List.getLast?_append_cons] at hlast
    rw [hl] at hchain
    have hafter : (q :: l').IsChain (Follows atoms) :=
      hchain.suffix ⟨prev :: l, by simp⟩
    cases hl' : l'.getLast? with
    | none =>
      obtain rfl := List.getLast?_eq_none_iff.mp hl'
      have hq' : q.offset = (text atoms).length := by simpa using hlast
      exact hq'.le
    | some p =>
      rw [List.getLast?_cons, hl'] at hlast
      have := head_lt hafter (List.mem_of_getLast? hl')
      have hp : p.offset = (text atoms).length := by simpa using hlast
      omega

/-- The points up to the first that is too far. -/
lemma span_cases (l : List PointNode) (near : PointNode → Bool) :
    (∃ before, l.span near = (before, []) ∧ ∀ p ∈ l, near p) ∨
      ∃ before q after, l.span near = (before, q :: after) ∧ l = before ++ q :: after ∧
        near q = false ∧ ∀ p ∈ before, near p := by
  rw [List.span_eq_takeWhile_dropWhile]
  have happend := List.takeWhile_append_dropWhile (p := near) (l := l)
  cases h : l.dropWhile near with
  | nil =>
    rw [h, List.append_nil] at happend
    refine .inl ⟨_, rfl, fun p hp => ?_⟩
    rw [← happend] at hp
    exact List.mem_takeWhile_imp hp
  | cons q after =>
    rw [h] at happend
    have hq := List.head?_dropWhile_not near l
    rw [h] at hq
    exact .inr ⟨_, q, after, rfl, happend.symm, by simpa using hq,
      fun p hp => List.mem_takeWhile_imp hp⟩

/-! ### One read -/

/-- The bytes that are read. -/
lemma take_spec (pstream : Producer) (hcur : pstream.curOffset = n) (hle : n + k ≤ pstream.source.length) :
    ∃ pstream', pstream.take k = some ((pstream.source.drop n).take k, pstream') ∧
      pstream'.source = pstream.source ∧ pstream'.curOffset = n + k ∧
      pstream'.bpList = pstream.bpList ∧ pstream'.bRead = pstream.bRead := by
  cases hfd : pstream.fd with
  | none =>
    simp only [curOffset, source, hfd] at hcur hle
    subst hcur
    refine ⟨{ pstream with readOffset := pstream.readOffset + k }, ?_, ?_, ?_, rfl, rfl⟩
    · simp only [take, source, hfd]
    · simp only [source, hfd]
    · simp only [curOffset, hfd]
  | some f =>
    simp only [curOffset, source, hfd] at hcur hle
    subst hcur
    have hlen : ((f.content.drop f.position).take k).length = k := by
      rw [List.length_take, List.length_drop]
      omega
    refine ⟨{ pstream with fd := some { f with position := f.position + k } }, ?_, ?_, ?_, rfl, rfl⟩
    · simp only [take, source, hfd, hlen, if_true]
    · simp only [source, hfd]
    · simp only [curOffset]

/-- Where the producer cuts, up to a point `q` that is too far, behind a point `p`. -/
lemma cutLength_spec {p q : PointNode} {before : List PointNode} (h : Follows atoms p q)
    (hfar : n + plen < q.offset) (hlarge : 2052 ≤ plen) (hsmall : plen < 2 ^ 16)
    (hfits : q.offset < 2 ^ 32)
    (hbefore : before.getLast? = none ∧ p.offset ≤ n ∧
        (q.type = .wstring → (n - p.offset) % 2 = 0) ∨
      before.getLast? = some p ∧ n < p.offset ∧ p.offset ≤ n + plen ∧ Boundary atoms p.offset) :
    ∃ k, cutLength n plen before q = some k ∧ 0 < k ∧ k ≤ plen ∧ p.offset ≤ n + k ∧
      (q.type = .wstring → (n + k - p.offset) % 2 = 0) ∧ Cut atoms (n + k) := by
  have hlt := h.lt
  have hspans := h.spans
  have hnear := h.near
  obtain ⟨type, offset⟩ := q
  cases type with
  | normalBreak =>
    obtain ⟨-, hnear⟩ := hnear rfl
    rcases hbefore with ⟨-, hp, -⟩ | ⟨hlast, hp, hple, hbound⟩
    · dsimp only at hfar hnear
      omega
    · have hsub : sub32 p.offset n % 2 ^ 16 = p.offset - n := by
        unfold sub32
        dsimp only at hfar hfits
        omega
      have hcut : n + (p.offset - n) = p.offset := by omega
      refine ⟨p.offset - n, ?_, by omega, by omega, by omega, nofun, ?_⟩
      · simp only [cutLength, hlast]
        rw [if_neg (by omega), hsub]
      · rw [hcut]
        exact .between hbound
  | longVar =>
    refine ⟨plen, ?_, by omega, le_rfl, ?_, nofun, .longVar (hspans nofun) ?_ hfar.le⟩
    · cases hl : before.getLast? <;> simp only [cutLength]
    · rcases hbefore with ⟨-, hp, -⟩ | ⟨-, -, hp, -⟩ <;> omega
    · rcases hbefore with ⟨-, hp, -⟩ | ⟨-, -, hp, -⟩ <;> omega
  | wstring =>
    rcases hbefore with ⟨hlast, hp, heven⟩ | ⟨hlast, hp, hple, hbound⟩
    · have heven := heven rfl
      have hcut : cutLength n plen before ⟨.wstring, offset⟩ =
          some (if plen % 2 ≠ 0 then plen - 1 else plen) := by
        simp only [cutLength, hlast]
      refine ⟨_, hcut, ?_⟩
      split_ifs with hodd
      · exact ⟨by omega, by omega, by omega, fun _ => by omega,
          .wstring (hspans nofun) (by omega) (by dsimp only at hfar ⊢; omega) (by omega)⟩
      · exact ⟨by omega, by omega, by omega, fun _ => by omega,
          .wstring (hspans nofun) (by omega) (by dsimp only at hfar ⊢; omega) (by omega)⟩
    · have hsub : sub32 p.offset n = p.offset - n := by
        unfold sub32
        dsimp only at hfar hfits
        omega
      have hcut : cutLength n plen before ⟨.wstring, offset⟩ =
          some (if (plen + 2 ^ 32 - (p.offset - n)) % 2 ≠ 0 then plen - 1 else plen) := by
        simp only [cutLength, hlast, hsub]
      refine ⟨_, hcut, ?_⟩
      split_ifs with hodd
      · exact ⟨by omega, by omega, by omega, fun _ => by omega,
          .wstring (hspans nofun) (by omega) (by dsimp only at hfar ⊢; omega) (by omega)⟩
      · exact ⟨by omega, by omega, by omega, fun _ => by omega,
          .wstring (hspans nofun) (by omega) (by dsimp only at hfar ⊢; omega) (by omega)⟩

/-- What follows a point that is too far, and the one in front of it. -/
lemma Reading.split {prev q : PointNode} {before after : List PointNode}
    (h : Reading atoms n prev pstream) (plen : ℕ) (hl : pstream.bpList = before ++ q :: after)
    (hnear : ∀ p ∈ before, p.offset ≤ n + plen) :
    ∃ p, Follows atoms p q ∧ (q :: after).IsChain (Follows atoms) ∧
      (before.getLast? = none ∧ p.offset ≤ n ∧ (q.type = .wstring → (n - p.offset) % 2 = 0) ∨
        before.getLast? = some p ∧ n < p.offset ∧ p.offset ≤ n + plen ∧
          Boundary atoms p.offset) := by
  have hchain := h.chain
  rw [hl] at hchain
  cases hlast : before.getLast? with
  | none =>
    obtain rfl := List.getLast?_eq_none_iff.mp hlast
    obtain ⟨hfollows, hafter⟩ := List.isChain_cons_cons.mp hchain
    exact ⟨prev, hfollows, hafter, .inl ⟨rfl, h.passed, (h.ahead q (by simp [hl])).2⟩⟩
  | some p =>
    obtain ⟨before', rfl⟩ : ∃ before', before = before' ++ [p] := by
      rcases List.eq_nil_or_concat before with rfl | ⟨l, p', rfl⟩
      · simp at hlast
      · obtain rfl : p' = p := by simpa using hlast
        exact ⟨l, by simp⟩
    have hmem : p ∈ pstream.bpList := by simp [hl]
    rw [List.append_assoc, List.singleton_append, ← List.cons_append,
      List.isChain_append_cons_cons] at hchain
    obtain ⟨hbefore, hfollows, hafter⟩ := hchain
    refine ⟨p, hfollows, hafter, .inr ⟨rfl, (h.between hmem).1, hnear p (by simp), ?_⟩⟩
    have hpair := List.isChain_append.mp hbefore
    obtain ⟨p', hp'⟩ : ∃ p', (prev :: before').getLast? = some p' := by
      cases hcase : (prev :: before').getLast? with
      | none => simp at hcase
      | some p' => exact ⟨p', rfl⟩
    exact (hpair.2.2 p' hp' p rfl).boundary

/-- **One read**: it gives some bytes, not more than are asked for, and either the last ones or
those up to a place where the stream may be cut. -/
lemma readBuffer_spec {prev : PointNode} (h : Reading atoms n prev pstream)
    (hfits : (text atoms).length < 2 ^ 32) (hlarge : 2052 ≤ plen) (hsmall : plen < 2 ^ 16) :
    ∃ k last pstream',
      pstream.readBuffer plen = some (((text atoms).drop n).take k, last, pstream') ∧
      0 < k ∧ k ≤ plen ∧ n + k ≤ (text atoms).length ∧ Cut atoms (n + k) ∧
      (last = true ∧ n + k = (text atoms).length ∨
        last = false ∧ n + k < (text atoms).length ∧
          ∃ prev', Reading atoms (n + k) prev' pstream') := by
  have hread := h.reading
  have hcur := h.cur
  have hsource := h.source
  have hsub (q : PointNode) (hq : q ∈ pstream.bpList) : sub32 q.offset n = q.offset - n := by
    have := h.between hq
    unfold sub32
    omega
  rcases span_cases pstream.bpList fun p => sub32 p.offset n ≤ plen with
    ⟨before, hspan, hnear⟩ | ⟨before, q, after, hspan, hl, hfar, hnear⟩
  · obtain ⟨p, hp⟩ : ∃ p, pstream.bpList.getLast? = some p := by
      have hlast := h.last
      cases hcase : pstream.bpList.getLast? with
      | none => simp [hcase] at hlast
      | some p => exact ⟨p, rfl⟩
    have hmem := List.mem_of_getLast? hp
    have hend : p.offset = (text atoms).length := by
      have hlast := h.last
      rw [hp] at hlast
      simpa using hlast
    have hbetween := h.between hmem
    have hk : sub32 p.offset n % 2 ^ 16 = p.offset - n := by
      have := hnear p hmem
      rw [hsub p hmem] at this ⊢
      simp only [decide_eq_true_eq] at this
      omega
    have hle : p.offset - n ≤ plen := by
      have := hnear p hmem
      rw [hsub p hmem] at this
      simpa using this
    have hcut : n + (p.offset - n) = (text atoms).length := by omega
    obtain ⟨pstream', htake, -⟩ := take_spec { pstream with bpList := [] }
      (k := p.offset - n) hcur (by change _ ≤ pstream.source.length; rw [hsource]; omega)
    refine ⟨p.offset - n, true, create, ?_, by omega, hle, by omega, ?_, .inl ⟨rfl, hcut⟩⟩
    · unfold readBuffer
      rw [if_pos hread]
      dsimp only
      rw [hcur, hspan]
      change (pstream.bpList.getLast?).bind _ = _
      rw [hp, Option.bind_some, if_neg (by omega), hk, htake, ← hsource]
      rfl
    · rw [hcut]
      exact .between .whole
  · have hmem : q ∈ pstream.bpList := by simp [hl]
    have hbetween := h.between hmem
    have hfar : n + plen < q.offset := by
      rw [hsub q hmem] at hfar
      simp only [decide_eq_false_iff_not] at hfar
      omega
    obtain ⟨p, hfollows, hafter, hbefore⟩ := h.split plen hl fun p hp => by
      have hp' : p ∈ pstream.bpList := by simp [hl, hp]
      have := hnear p hp
      rw [hsub p hp'] at this
      simp only [decide_eq_true_eq] at this
      omega
    obtain ⟨k, hk, hpos, hle, hpassed, heven, hcut⟩ :=
      cutLength_spec hfollows hfar hlarge hsmall (by omega) hbefore
    obtain ⟨pstream', htake, hsource', hcur', hlist', hread'⟩ :=
      take_spec { pstream with bpList := q :: after } (k := k) hcur
        (by change _ ≤ pstream.source.length; rw [hsource]; omega)
    refine ⟨k, false, pstream', ?_, hpos, hle, by omega, hcut, .inr ⟨rfl, by omega, p, ?_⟩⟩
    · unfold readBuffer
      rw [if_pos hread]
      dsimp only
      rw [hcur, hspan]
      change (cutLength n plen before q).bind _ = _
      rw [hk, Option.bind_some, htake, ← hsource]
      rfl
    · refine ⟨hread'.trans hread, hsource'.trans hsource, hcur', ?_, hpassed,
        fun q' hq' => ?_, ?_⟩
      · rw [hlist']
        exact List.isChain_cons_cons.mpr ⟨hfollows, hafter⟩
      · obtain rfl : q = q' := by simpa [hlist'] using hq'
        exact ⟨by omega, heven⟩
      · have hlast := h.last
        rw [hl, List.getLast?_append_cons] at hlast
        rw [hlist']
        exact hlast

/-! ### A download -/

/-- What is given out for the lengths `plens`, from the `n`th byte on: the stream or, where it is
not the last piece that has been asked for, the front of it. -/
structure Delivered (atoms : List Atom) (n : ℕ) (plens : List ℕ) (pieces : List Bytes)
    (last : Bool) : Prop where
  front : pieces.flatten <+: (text atoms).drop n
  last_iff : last = true ↔ pieces.flatten = (text atoms).drop n
  all : last = false → pieces.length = plens.length
  fits : List.Forall₂ (fun piece plen => piece ≠ [] ∧ piece.length ≤ plen) pieces
    (plens.take pieces.length)
  cut : ∀ k, Cut atoms (n + (pieces.take k).flatten.length)

lemma delivered_of_reading {prev : PointNode} {plens : List ℕ} (h : Reading atoms n prev pstream)
    (hlt : n < (text atoms).length) (hcut : Cut atoms n) (hfits : (text atoms).length < 2 ^ 32)
    (hplens : ∀ plen ∈ plens, 2052 ≤ plen ∧ plen < 2 ^ 16) :
    ∃ pieces last, pstream.download plens = some (pieces, last) ∧
      Delivered atoms n plens pieces last := by
  induction plens generalizing pstream n prev with
  | nil =>
    refine ⟨[], false, rfl, List.nil_prefix, ?_, fun _ => rfl, .nil, fun k => ?_⟩
    · have hne : (text atoms).drop n ≠ [] := by
        rw [ne_eq, List.drop_eq_nil_iff]
        omega
      simpa using hne.symm
    · simpa using hcut
  | cons plen plens ih =>
    obtain ⟨hlarge, hsmall⟩ := hplens plen List.mem_cons_self
    obtain ⟨k, last, pstream', hread, hpos, hle, hk, hcut', hnext⟩ :=
      readBuffer_spec h hfits hlarge hsmall
    have hlen : (((text atoms).drop n).take k).length = k := by
      rw [List.length_take, List.length_drop]
      omega
    have hpiece : ((text atoms).drop n).take k ≠ [] := by
      rw [← List.length_pos_iff]
      omega
    have hdrop : ((text atoms).drop n).take k ++ (text atoms).drop (n + k) =
        (text atoms).drop n := by
      rw [← List.drop_drop, List.take_append_drop]
    rcases hnext with ⟨rfl, hend⟩ | ⟨rfl, hmore, prev', h'⟩
    · refine ⟨[((text atoms).drop n).take k], true, ?_, ?_, ?_, nofun, ?_, fun j => ?_⟩
      · rw [download, hread]
        rfl
      · simpa using List.take_prefix _ _
      · rw [← hdrop, hend, List.drop_length, List.append_nil]
        simp
      · exact .cons ⟨hpiece, hlen.trans_le hle⟩ .nil
      · cases j with
        | zero => simpa using hcut
        | succ j => simpa [hlen] using hcut'
    · obtain ⟨pieces, last, hrest, hd⟩ := ih h' hmore hcut' fun plen hplen =>
        hplens plen (List.mem_cons_of_mem _ hplen)
      refine ⟨((text atoms).drop n).take k :: pieces, last, ?_, ?_, ?_, fun hlast => ?_, ?_,
        fun j => ?_⟩
      · rw [download, hread]
        change (download plens pstream').bind _ = _
        rw [hrest]
        rfl
      · rw [List.flatten_cons]
        nth_rewrite 2 [← hdrop]
        exact (List.prefix_append_right_inj _).mpr hd.front
      · rw [List.flatten_cons]
        nth_rewrite 2 [← hdrop]
        rw [List.append_cancel_left_eq]
        exact hd.last_iff
      · exact congrArg (· + 1) (hd.all hlast)
      · exact .cons ⟨hpiece, hlen.trans_le hle⟩ hd.fits
      · cases j with
        | zero => simpa using hcut
        | succ j =>
          have := hd.cut j
          rw [List.take_succ_cons, List.flatten_cons, List.length_append, hlen, ← add_assoc]
          exact this

variable (x : Setup) (option : StringOption) (cpid : UInt16)

lemma written_of_writeAll {es : List Element}
    (hwrite : create.writeAll x option cpid es = some pstream)
    (hatoms : streamAtoms x option cpid es = some atoms) (hfits : (text atoms).length < 2 ^ 32) :
    Written atoms [] pstream := by
  obtain ⟨new, hnew, hwritten⟩ := (writesTo_writeAll x option cpid es).written hwrite
  obtain rfl := Option.some.inj (hatoms.symm.trans hnew)
  have h : Written ([] ++ atoms) [] pstream := hwritten hfits written_create
  exact h

lemma delivered_of_written {plens : List ℕ} (h : Written atoms [] pstream)
    (hpos : 0 < (text atoms).length) (hfits : (text atoms).length < 2 ^ 32)
    (hplens : ∀ plen ∈ plens, 2052 ≤ plen ∧ plen < 2 ^ 16) :
    ∃ pieces last, pstream.download plens = some (pieces, last) ∧
      Delivered atoms 0 plens pieces last := by
  obtain ⟨pieces, last, hdown, hd⟩ := delivered_of_reading (reading_beginRead h hpos) hpos
    (.between .start) hfits hplens
  refine ⟨pieces, last, ?_, hd⟩
  rw [← hdown]
  cases plens with
  | nil => rfl
  | cons plen plens => rw [download, download, readBuffer_of_unread h.unread]

/-- **A download does not fail**, and what it gives out is the stream of the elements that were
written, cut only where that is allowed. -/
theorem delivered_of_writeAll {es : List Element} {plens : List ℕ}
    (hwrite : create.writeAll x option cpid es = some pstream)
    (hatoms : streamAtoms x option cpid es = some atoms) (hpos : 0 < (text atoms).length)
    (hfits : (text atoms).length < 2 ^ 32) (hplens : ∀ plen ∈ plens, 2052 ≤ plen ∧ plen < 2 ^ 16) :
    ∃ pieces last, pstream.download plens = some (pieces, last) ∧
      Delivered atoms 0 plens pieces last :=
  delivered_of_written (written_of_writeAll x option cpid hwrite hatoms hfits) hpos hfits hplens

/-- A folder with a long property, and one that is not sent. -/
def sample : List Element :=
  [.marker 0x40090003, .propval (.mk 0x3001001F (.string (.of [0x61]))),
    .propval (.mk 0x80010102 (.binary (List.replicate 3000 7))), .propval (.mk 0x0FF600FB .null),
    .marker 0x400B0003]

def unicode : StringOption := ⟨false, false, false⟩

theorem delivered_of_writeAll_sample : ∃ pstream atoms pieces last,
    create.writeAll ascii unicode 0 sample = some pstream ∧
      pstream.download [2052, 2052] = some (pieces, last) ∧
        Delivered atoms 0 [2052, 2052] pieces last := by
  obtain ⟨pstream, hwrite⟩ : ∃ pstream, create.writeAll ascii unicode 0 sample = some pstream :=
    Option.isSome_iff_exists.mp (by decide +kernel)
  have hatoms : streamAtoms ascii unicode 0 sample =
      some ((streamAtoms ascii unicode 0 sample).getD []) := by decide +kernel
  obtain ⟨pieces, last, hdown, hd⟩ := delivered_of_writeAll ascii unicode 0 hwrite hatoms
    (by decide +kernel) (by decide +kernel)
    (by decide : ∀ plen ∈ [2052, 2052], 2052 ≤ plen ∧ plen < 2 ^ 16)
  exact ⟨pstream, _, pieces, last, hwrite, hdown, hd⟩

end SteepSystem.Ftstreams.Producer
