import TankConvertor.Sac.Model

/-
  What storing a packet comes to: the packet's samples, all
  of them and in order, are appended to the words, wherever
  the buffer fills up on the way.

  Key definitions include:
    * `SacState.Fits`

  Key theorems include:
    * `copySamps_eq`
    * `storePacket_eq`
    * `storePacket_cases`
    * `sacBody_first` and `sacBody_next`
    * `nextPacket_cases` and `sacBody_cases`
    * `sacBody_extends`
    * `sacFinish_eq` and `sacFinish_of_neg`
-/

------------------------------------------------------------
-- Copying
------------------------------------------------------------

namespace TankConvertor

/-
  A copy from sample `j` on writes the samples that are left
  or as many as there is room for.
-/
theorem copySamps_eq
    {host : ByteOrder}
    {p : Packet}
    {k : SampleKind}
    {n : Nat}
    (h : p.WellFormed k n)
    (room : Nat)
    {j : Nat}
    (hLe : j ≤ n) :
    copySamps host k p room (k.width * j) =
      (((p.sacwords host k n).drop j).take room,
        k.width * (j + min room (n - j))) := by
  induction room generalizing j with
  | zero => simp [copySamps]
  | succ room ih =>
      have hIf :
          k.width * j < p.dataSize ↔ j < n := by
        rw [h.dataSize_eq]
        exact Nat.mul_lt_mul_left k.width_pos
      by_cases hLt : j < n
      · have hLen : j < (p.sacwords host k n).length := by
          simpa using hLt
        have hHead :
            (p.sacwords host k n)[j] =
              k.sacword host (p.dataAt (k.width * j) k.width) := by
          simp [Packet.sacwords]
        have hNext : k.width * j + k.width = k.width * (j + 1) :=
          (Nat.mul_succ k.width j).symm
        have hCount :
            j + 1 + min room (n - (j + 1)) =
              j + min (room + 1) (n - j) := by
          omega
        rw [copySamps, if_pos (hIf.mpr hLt), hNext, ih hLt,
          List.drop_eq_getElem_cons hLen, List.take_succ_cons,
          hHead, hCount]
      · have hEq : j = n := le_antisymm hLe (not_lt.mp hLt)
        have hDrop : (p.sacwords host k n).drop j = [] := by
          simp [hEq]
        rw [copySamps, if_neg (fun hc => hLt (hIf.mp hc)), hDrop,
          hEq]
        simp

/- `enrich_sac_samps` from sample `j` on. -/
theorem enrichSacSamps_eq
    (host : ByteOrder)
    {p : Packet}
    {k : SampleKind}
    {n : Nat}
    (h : p.WellFormed k n)
    (s : SacState)
    {j : Nat}
    (hLe : j ≤ n) :
    enrichSacSamps host p (k.width * j) s =
      some
        ({ s with
            words :=
              s.words ++ ((p.words host).drop j).take s.room },
          k.width * (j + min s.room (n - j))) := by
  unfold enrichSacSamps
  rw [h.format, h.words_eq]
  simp only [copySamps_eq h s.room hLe]

------------------------------------------------------------
-- Storing
------------------------------------------------------------

/- The words stored lie within the buffer. -/
def SacState.Fits (s : SacState) : Prop :=
  s.words.length ≤ s.capacity

/-
  Storing a packet appends its samples.  A buffer that fills
  up grows once, which is enough for what is left, provided
  the write position can still be carried over.
-/
theorem storePacket_eq
    {host : ByteOrder}
    {p : Packet}
    {k : SampleKind}
    {n : Nat}
    (h : p.WellFormed k n)
    {s : SacState}
    (hFits : s.Fits) :
    storePacket host p s =
      if s.words.length + n < s.capacity then
        some
          (advance p { s with words := s.words ++ p.words host })
      else if s.capacity < 2 ^ 31 then
        some
          (advance p
            { s with
              words := s.words ++ p.words host
              capacity := s.capacity + growth })
      else
        none := by
  have hLen : (p.words host).length = n := h.length_words host
  have hFirst := enrichSacSamps_eq host h s (Nat.zero_le n)
  rw [Nat.mul_zero, List.drop_zero, Nat.sub_zero, Nat.zero_add]
    at hFirst
  unfold SacState.Fits at hFits
  unfold storePacket
  rw [hFirst]
  simp only
  by_cases hRoom : s.words.length + n < s.capacity
  · have hAll : (p.words host).take s.room = p.words host := by
      apply List.take_of_length_le
      unfold SacState.room
      omega
    have hOpen :
        ¬ s.capacity ≤ (s.words ++ p.words host).length := by
      rw [List.length_append]
      omega
    rw [hAll, if_neg hOpen, if_pos hRoom]
  · -- The first copy ends exactly at the end of the buffer.
    have hFull :
        (s.words ++ (p.words host).take s.room).length =
          s.capacity := by
      rw [List.length_append, List.length_take]
      unfold SacState.room
      omega
    have hMin : min s.room n = s.room := by
      unfold SacState.room
      omega
    rw [if_pos hFull.ge, if_neg hRoom, hMin]
    unfold growOutbuf realignSacFilePartition reallocOutbuf
    simp only [hFull]
    by_cases hSmall : s.capacity < 2 ^ 31
    · rw [if_pos hSmall, if_pos hSmall]
      simp only
      rw [enrichSacSamps_eq host h _ (by unfold SacState.room; omega)]
      have hRest :
          (s.capacity + growth -
              (s.words ++ (p.words host).take s.room).length) =
            growth := by
        rw [hFull]
        omega
      have hEnough :
          ((p.words host).drop s.room).take growth =
            (p.words host).drop s.room := by
        apply List.take_of_length_le
        have hFew : n ≤ 2016 := h.le_2016
        rw [List.length_drop, hLen]
        unfold growth maxNumTbuf
        omega
      simp only [SacState.room] at hRest hEnough ⊢
      rw [hRest, hEnough, List.append_assoc, List.take_append_drop]
    · rw [if_neg hSmall, if_neg hSmall]

/- What is known of the state after storing a packet. -/
theorem storePacket_cases
    {host : ByteOrder}
    {p : Packet}
    {k : SampleKind}
    {n : Nat}
    (h : p.WellFormed k n)
    {s s' : SacState}
    (hFits : s.Fits)
    (hStore : storePacket host p s = some s') :
    ∃ capacity,
      s' =
          advance p
            { s with
              words := s.words ++ p.words host
              capacity := capacity } ∧
        s.words.length + n < capacity ∧
        (capacity = s.capacity ∨
          (capacity = s.capacity + growth ∧
            s.capacity < 2 ^ 31)) := by
  have hFew : n ≤ 2016 := h.le_2016
  have hGrowth : growth = 204800 := rfl
  unfold SacState.Fits at hFits
  rw [storePacket_eq h hFits] at hStore
  split_ifs at hStore with hRoom hSmall
  · refine ⟨s.capacity, ?_, hRoom, Or.inl rfl⟩
    exact (Option.some.inj hStore).symm
  · refine
      ⟨s.capacity + growth, ?_, by omega,
        Or.inr ⟨rfl, hSmall⟩⟩
    exact (Option.some.inj hStore).symm

/- Few words can always be stored. -/
theorem storePacket_isSome
    (host : ByteOrder)
    {p : Packet}
    {k : SampleKind}
    {n : Nat}
    (h : p.WellFormed k n)
    {s : SacState}
    (hFits : s.Fits)
    (hFew : s.words.length + n < 2 ^ 31) :
    ∃ s', storePacket host p s = some s' := by
  rw [storePacket_eq h hFits]
  by_cases hRoom : s.words.length + n < s.capacity
  · rw [if_pos hRoom]
    exact ⟨_, rfl⟩
  · rw [if_neg hRoom, if_pos (by omega)]
    exact ⟨_, rfl⟩

------------------------------------------------------------
-- The Branches Of The Body
------------------------------------------------------------

theorem nextPacket_bogus
    [Rounding]
    (host : ByteOrder)
    {s : SacState}
    {p : Packet}
    (hGap : GapBefore s p)
    (hBogus : Bogus s (nfill s p)) :
    nextPacket host p s = some s := by
  simp only [nextPacket, if_pos hGap, if_pos hBogus]

theorem nextPacket_gap
    [Rounding]
    (host : ByteOrder)
    {s t : SacState}
    {p : Packet}
    (hGap : GapBefore s p)
    (hBogus : ¬ Bogus s (nfill s p))
    (hRoom : roomForGap (nfill s p) s = some t) :
    nextPacket host p s =
      storePacket host p (fillGap (nfill s p) t) := by
  simp only [nextPacket, if_pos hGap, if_neg hBogus, hRoom]

theorem nextPacket_duplicated
    [Rounding]
    (host : ByteOrder)
    {s : SacState}
    {p : Packet}
    (hGap : ¬ GapBefore s p)
    (hDup : Duplicated s p) :
    nextPacket host p s = some s := by
  simp only [nextPacket, if_neg hGap, if_pos hDup]

theorem nextPacket_stored
    [Rounding]
    (host : ByteOrder)
    {s : SacState}
    {p : Packet}
    (hGap : ¬ GapBefore s p)
    (hDup : ¬ Duplicated s p) :
    nextPacket host p s = storePacket host p s := by
  simp only [nextPacket, if_neg hGap, if_neg hDup]

theorem sacBody_first
    [Rounding]
    (host : ByteOrder)
    {s : SacState}
    (p : Packet)
    (hFirst : s.i = 0) :
    sacBody host s p =
      (storePacket host p
        { s with
          samprate := p.samprate
          header := enrichSacStarttime s.header p.starttime }).map
        (fun t => { t with i := s.i + 1 }) := by
  simp [sacBody, hFirst]

theorem sacBody_next
    [Rounding]
    (host : ByteOrder)
    {s : SacState}
    (p : Packet)
    (hNext : 0 < s.i) :
    sacBody host s p =
      (nextPacket host p { s with samprate := p.samprate }).map
        (fun t => { t with i := s.i + 1 }) := by
  simp only [sacBody, if_pos hNext]

/-
  What a later packet comes to: it is left out, or stored
  behind a gap that is filled in the room made for it, or
  stored.
-/
theorem nextPacket_cases
    [Rounding]
    {host : ByteOrder}
    {p : Packet}
    {s t : SacState}
    (hNext : nextPacket host p s = some t) :
    (t = s ∧
        ((GapBefore s p ∧ Bogus s (nfill s p)) ∨
          (¬ GapBefore s p ∧ Duplicated s p))) ∨
      (GapBefore s p ∧ ¬ Bogus s (nfill s p) ∧
        ∃ u,
          roomForGap (nfill s p) s = some u ∧
            storePacket host p (fillGap (nfill s p) u) =
              some t) ∨
      (¬ GapBefore s p ∧ ¬ Duplicated s p ∧
        storePacket host p s = some t) := by
  simp only [nextPacket] at hNext
  split_ifs at hNext with hGap hBogus hDup
  · exact Or.inl ⟨(Option.some.inj hNext).symm,
      Or.inl ⟨hGap, hBogus⟩⟩
  · cases hRoom : roomForGap (nfill s p) s with
    | none =>
        rw [hRoom] at hNext
        cases hNext
    | some u =>
        rw [hRoom] at hNext
        exact Or.inr (Or.inl ⟨hGap, hBogus, u, rfl, hNext⟩)
  · exact Or.inl ⟨(Option.some.inj hNext).symm,
      Or.inr ⟨hGap, hDup⟩⟩
  · exact Or.inr (Or.inr ⟨hGap, hDup, hNext⟩)

/- What an iteration comes to, up to the counter. -/
theorem sacBody_cases
    [Rounding]
    {host : ByteOrder}
    {p : Packet}
    {s t : SacState}
    (hBody : sacBody host s p = some t) :
    ∃ u,
      t = { u with i := s.i + 1 } ∧
        ((s.i = 0 ∧
            storePacket host p
                { s with
                  samprate := p.samprate
                  header :=
                    enrichSacStarttime s.header p.starttime } =
              some u) ∨
          (0 < s.i ∧
            nextPacket host p
                { s with samprate := p.samprate } =
              some u)) := by
  simp only [sacBody] at hBody
  rcases Option.map_eq_some_iff.mp hBody with ⟨u, hAfter, rfl⟩
  refine ⟨u, rfl, ?_⟩
  split_ifs at hAfter with hNext
  · exact Or.inr ⟨hNext, hAfter⟩
  · exact Or.inl ⟨Nat.eq_zero_of_not_pos hNext, hAfter⟩

theorem index_of_sacBody
    [Rounding]
    {host : ByteOrder}
    {p : Packet}
    {s t : SacState}
    (hBody : sacBody host s p = some t) :
    t.i = s.i + 1 := by
  rcases sacBody_cases hBody with ⟨u, rfl, _⟩
  rfl

------------------------------------------------------------
-- Stored Words Stay
------------------------------------------------------------

theorem enrichSacSamps_extends
    {host : ByteOrder}
    {p : Packet}
    {src : Nat}
    {s : SacState}
    {r : SacState × Nat}
    (hEnrich : enrichSacSamps host p src s = some r) :
    s.words <+: r.1.words := by
  unfold enrichSacSamps at hEnrich
  cases hFormat : p.format with
  | none =>
      rw [hFormat] at hEnrich
      cases hEnrich
  | some k =>
      rw [hFormat] at hEnrich
      obtain rfl := Option.some.inj hEnrich
      exact List.prefix_append _ _

theorem growOutbuf_words
    {s s' : SacState}
    (hGrow : growOutbuf s = some s') :
    s' = reallocOutbuf s := by
  unfold growOutbuf realignSacFilePartition at hGrow
  split_ifs at hGrow
  exact (Option.some.inj hGrow).symm

theorem roomForGap_keeps
    {s t : SacState}
    {n : Int}
    (hRoom : roomForGap n s = some t) :
    t = s ∨ t = reallocOutbuf s := by
  unfold roomForGap at hRoom
  split_ifs at hRoom
  · exact Or.inr (growOutbuf_words hRoom)
  · exact Or.inl (Option.some.inj hRoom).symm

theorem storePacket_extends
    {host : ByteOrder}
    {p : Packet}
    {s s' : SacState}
    (hStore : storePacket host p s = some s') :
    s.words <+: s'.words := by
  unfold storePacket at hStore
  cases hFirst : enrichSacSamps host p 0 s with
  | none =>
      rw [hFirst] at hStore
      obtain rfl := Option.some.inj hStore
      exact List.prefix_rfl
  | some r =>
      rw [hFirst] at hStore
      have hExt := enrichSacSamps_extends hFirst
      simp only at hStore
      split_ifs at hStore with hFull
      · cases hGrow : growOutbuf r.1 with
        | none =>
            rw [hGrow] at hStore
            cases hStore
        | some t =>
            rw [hGrow] at hStore
            obtain rfl := growOutbuf_words hGrow
            cases hRest :
                enrichSacSamps host p r.2 (reallocOutbuf r.1) with
            | none =>
                simp only [hRest] at hStore
                obtain rfl := Option.some.inj hStore
                exact hExt
            | some q =>
                simp only [hRest] at hStore
                obtain rfl := Option.some.inj hStore
                have hMore := enrichSacSamps_extends hRest
                exact hExt.trans hMore
      · obtain rfl := Option.some.inj hStore
        exact hExt

theorem nextPacket_extends
    [Rounding]
    {host : ByteOrder}
    {p : Packet}
    {s s' : SacState}
    (hNext : nextPacket host p s = some s') :
    s.words <+: s'.words := by
  rcases nextPacket_cases hNext with
    ⟨rfl, _⟩ | ⟨_, _, u, hRoom, hStore⟩ | ⟨_, _, hStore⟩
  · exact List.prefix_rfl
  · have hWords : u.words = s.words := by
      rcases roomForGap_keeps hRoom with rfl | rfl
      · rfl
      · rfl
    have hFill :
        u.words <+: (fillGap (nfill s p) u).words :=
      List.prefix_append _ _
    rw [← hWords]
    exact hFill.trans (storePacket_extends hStore)
  · exact storePacket_extends hStore

/- No iteration takes back a word that was stored. -/
theorem sacBody_extends
    [Rounding]
    {host : ByteOrder}
    {p : Packet}
    {s s' : SacState}
    (hBody : sacBody host s p = some s') :
    s.words <+: s'.words := by
  rcases sacBody_cases hBody with
    ⟨u, rfl, ⟨_, hStore⟩ | ⟨_, hNext⟩⟩
  · have hExt := storePacket_extends hStore
    exact hExt
  · have hExt := nextPacket_extends hNext
    exact hExt

------------------------------------------------------------
-- The File Written
------------------------------------------------------------

@[simp] theorem npts_finishHeader
    [Rounding]
    (s : SacState) :
    (finishHeader s).int SacField.npts =
      wrap32 s.nsampTrace := by
  simp [finishHeader, SacHeader.setInt, SacHeader.setFloat]

/- A count that is the number of words writes all of them. -/
theorem sacFinish_eq
    [Rounding]
    (outpath : List UInt8)
    (n : TraceNode)
    {s : SacState}
    (hCount : s.nsampTrace = s.words.length)
    (hInt : s.nsampTrace < 2 ^ 31) :
    sacFinish outpath n s =
      some ⟨sacPath outpath n, finishHeader s, s.words⟩ := by
  have hNpts : wrap32 s.nsampTrace = s.words.length := by
    rw [wrap32_of_mem (by omega) hInt, hCount]
  simp [sacFinish, writeSacFile, hNpts]

/- A negative count asks for more than there is. -/
theorem sacFinish_of_neg
    [Rounding]
    (outpath : List UInt8)
    (n : TraceNode)
    {s : SacState}
    (hNeg : wrap32 s.nsampTrace < 0) :
    sacFinish outpath n s = none := by
  have hOut : ¬ (0 ≤ wrap32 s.nsampTrace) := not_le.mpr hNeg
  simp [sacFinish, writeSacFile, hOut]

/- A file holds words of the buffer, as an `int` can count. -/
theorem sacFinish_data
    [Rounding]
    {outpath : List UInt8}
    {n : TraceNode}
    {s : SacState}
    {f : SacFile}
    (hFinish : sacFinish outpath n s = some f) :
    f.data <+: s.words ∧ f.data.length < 2 ^ 31 := by
  have hUpper := wrap32_upper s.nsampTrace
  simp only [sacFinish, writeSacFile, npts_finishHeader]
    at hFinish
  split_ifs at hFinish with hIn
  obtain rfl := Option.some.inj hFinish
  refine ⟨List.take_prefix _ _, ?_⟩
  rw [List.length_take]
  omega

theorem sacFinish_header
    [Rounding]
    {outpath : List UInt8}
    {n : TraceNode}
    {s : SacState}
    {f : SacFile}
    (hFinish : sacFinish outpath n s = some f) :
    f.header = finishHeader s := by
  simp only [sacFinish, writeSacFile] at hFinish
  split_ifs at hFinish
  obtain rfl := Option.some.inj hFinish
  rfl

theorem sacprocTraceOutput_of_run
    [Rounding]
    {host : ByteOrder}
    {now : Int}
    (outpath : List UInt8)
    {n : TraceNode}
    {packets : List Packet}
    {s : SacState}
    (hRun :
      packets.foldlM (sacBody host) (sacInit now n) = some s) :
    sacprocTraceOutput host now outpath n packets =
      sacFinish outpath n s := by
  simp only [sacprocTraceOutput, hRun]

/- A file that is written comes from a run of the loop. -/
theorem exists_run_of_output
    [Rounding]
    {host : ByteOrder}
    {now : Int}
    {outpath : List UInt8}
    {n : TraceNode}
    {packets : List Packet}
    {f : SacFile}
    (hFile :
      sacprocTraceOutput host now outpath n packets = some f) :
    ∃ s,
      packets.foldlM (sacBody host) (sacInit now n) = some s ∧
        sacFinish outpath n s = some f := by
  cases hRun :
      packets.foldlM (sacBody host) (sacInit now n) with
  | none =>
      simp only [sacprocTraceOutput, hRun] at hFile
      cases hFile
  | some s =>
      rw [sacprocTraceOutput_of_run outpath hRun] at hFile
      exact ⟨s, rfl, hFile⟩

end TankConvertor
