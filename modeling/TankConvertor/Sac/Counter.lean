import TankConvertor.Sac.Store

/-
  The sample count of the SAC converter against the words in
  its buffer: when they agree, iteration by iteration, and
  what the file then holds.

  Key definitions include:
    * `SacState.Counted`
    * `CountKept`
    * `CountMatches`

  Key theorems include:
    * `storePacket_counted_iff`
    * `fillGap_counted_iff`
    * `sacBody_counted_iff`
    * `count_matches_iff`
-/

------------------------------------------------------------
-- One Packet
------------------------------------------------------------

namespace TankConvertor

/-
  The count is the number of words between the header and
  `seis`, an `int`, and the buffer holds that many.
-/
structure SacState.Counted (s : SacState) : Prop where
  count : s.nsampTrace = s.words.length
  int : s.nsampTrace < 2 ^ 31
  room : sacHeaderSize + 4 * s.nsampTrace ≤ (s.buffersiz : Int)

theorem SacState.Counted.fits
    {s : SacState}
    (h : s.Counted) :
    s.Fits := by
  have hRoom := h.room
  rw [h.count] at hRoom
  unfold SacState.buffersiz at hRoom
  unfold SacState.Fits
  push_cast at hRoom
  omega

theorem SacState.Fits.counted
    {s : SacState}
    (hFits : s.Fits)
    (hCount : s.nsampTrace = s.words.length)
    (hInt : s.nsampTrace < 2 ^ 31) :
    s.Counted := by
  refine ⟨hCount, hInt, ?_⟩
  unfold SacState.Fits at hFits
  unfold SacState.buffersiz
  push_cast
  omega

/-
  Storing a packet leaves count and words equal just when
  they were equal before and the new count is an `int`.
-/
theorem storePacket_counted_iff
    {host : ByteOrder}
    {p : Packet}
    {k : SampleKind}
    {n : Nat}
    (h : p.WellFormed k n)
    {s : SacState}
    (hFits : s.Fits)
    (hLow : -2 ^ 31 ≤ s.nsampTrace)
    (hHigh : s.nsampTrace < 2 ^ 31) :
    (∃ s', storePacket host p s = some s' ∧ s'.Counted) ↔
      s.nsampTrace = s.words.length ∧
        s.nsampTrace + p.nsamp < 2 ^ 31 := by
  have hLen : (p.words host).length = n := h.length_words host
  rw [h.nsamp]
  constructor
  · rintro ⟨s', hStore, hCounted⟩
    rcases storePacket_cases h hFits hStore with
      ⟨capacity, rfl, -⟩
    have hCount :
        wrap32 (s.nsampTrace + p.nsamp) =
          (s.words ++ p.words host).length :=
      hCounted.count
    rw [h.nsamp, List.length_append, hLen] at hCount
    unfold wrap32 at hCount
    omega
  · rintro ⟨hCount, hInt⟩
    have hFew : s.words.length + n < 2 ^ 31 := by omega
    rcases storePacket_isSome host h hFits hFew with
      ⟨s', hStore⟩
    refine ⟨s', hStore, ?_⟩
    rcases storePacket_cases h hFits hStore with
      ⟨capacity, rfl, hRoom, -⟩
    have hWrap : wrap32 (s.nsampTrace + n) = s.nsampTrace + n :=
      wrap32_of_mem (by omega) hInt
    apply SacState.Fits.counted
    · unfold SacState.Fits
      simp only [advance, List.length_append, hLen]
      omega
    · simp only [advance, h.nsamp, hWrap, List.length_append,
        hLen]
      push_cast
      omega
    · simp only [advance, h.nsamp, hWrap]
      exact hInt

/- With count and words equal, only the range matters. -/
theorem SacState.Counted.storePacket_iff
    {host : ByteOrder}
    {p : Packet}
    {k : SampleKind}
    {n : Nat}
    {s : SacState}
    (hCounted : s.Counted)
    (h : p.WellFormed k n) :
    (∃ s', storePacket host p s = some s' ∧ s'.Counted) ↔
      s.nsampTrace + p.nsamp < 2 ^ 31 := by
  have hCount := hCounted.count
  rw [storePacket_counted_iff h hCounted.fits (by omega)
    hCounted.int]
  exact and_iff_right hCount

------------------------------------------------------------
-- Gaps
------------------------------------------------------------

/-
  A gap leaves count and words equal just when it fits the
  room that there is, and the new count is an `int`.
-/
theorem fillGap_counted_iff
    {s : SacState}
    {n : Int}
    (hCount : s.nsampTrace = s.words.length)
    (hInt : s.nsampTrace < 2 ^ 31)
    (hLow : -2 ^ 31 ≤ n)
    (hHigh : n < 2 ^ 31) :
    (fillGap n s).nsampTrace = (fillGap n s).words.length ↔
      0 ≤ n ∧ n ≤ s.room ∧ s.nsampTrace + n < 2 ^ 31 := by
  simp only [fillGap, List.length_append, List.length_replicate]
  unfold wrap32
  push_cast
  omega

/- The words filled in are then as many as the gap has. -/
theorem length_fillGap
    {s : SacState}
    {n : Int}
    (hNonneg : 0 ≤ n)
    (hRoom : n ≤ s.room) :
    ((fillGap n s).words.length : Int) = s.words.length + n := by
  simp only [fillGap, List.length_append, List.length_replicate]
  push_cast
  omega

theorem fillGap_fits
    {s : SacState}
    (n : Int)
    (hFits : s.Fits) :
    (fillGap n s).Fits := by
  unfold SacState.Fits at hFits ⊢
  simp only [fillGap, List.length_append, List.length_replicate,
    SacState.room]
  omega

/- The size computed for a gap that keeps the count an `int`. -/
theorem newsize_eq
    {s : SacState}
    {n : Int}
    (hNonneg : 0 ≤ s.nsampTrace + n)
    (hInt : s.nsampTrace + n < 2 ^ 31) :
    (newsize s n : Int) =
      (s.nsampTrace + n) * 4 + sacHeaderSize := by
  have hWrap : wrap32 (s.nsampTrace + n) = s.nsampTrace + n :=
    wrap32_of_mem (by omega) hInt
  have hHeader : sacHeaderSize = 632 := rfl
  unfold newsize
  rw [hWrap]
  omega

/- One growth at most is made for a gap, and succeeds. -/
theorem roomForGap_eq
    {s : SacState}
    (hCounted : s.Counted)
    (n : Int) :
    roomForGap n s =
      some
        (if s.buffersiz < newsize s n then reallocOutbuf s
          else s) := by
  have hLen : (reallocOutbuf s).words.length < 2 ^ 31 := by
    have hCount := hCounted.count
    have hInt := hCounted.int
    simp only [reallocOutbuf]
    omega
  unfold roomForGap growOutbuf realignSacFilePartition
  rw [if_pos hLen]
  split_ifs <;> rfl

/- Making room changes the capacity only. -/
theorem roomForGap_same
    {s t : SacState}
    {n : Int}
    (hCounted : s.Counted)
    (hRoom : roomForGap n s = some t) :
    t.nsampTrace = s.nsampTrace ∧ t.words = s.words ∧
      t.Fits := by
  have hFits := hCounted.fits
  rw [roomForGap_eq hCounted] at hRoom
  obtain rfl := Option.some.inj hRoom
  unfold SacState.Fits at hFits ⊢
  split_ifs
  · refine ⟨rfl, rfl, ?_⟩
    simp only [reallocOutbuf]
    omega
  · exact ⟨rfl, rfl, hFits⟩

/-
  The room after making room for a gap is enough for it just
  when the new size is within one growth of the old.
-/
theorem roomForGap_enough_iff
    {s t : SacState}
    {n : Int}
    (hCounted : s.Counted)
    (hRoom : roomForGap n s = some t)
    (hNonneg : 0 ≤ n)
    (hInt : s.nsampTrace + n < 2 ^ 31) :
    n ≤ t.room ↔ newsize s n ≤ s.buffersiz + growth * 4 := by
  have hCount := hCounted.count
  have hFits := hCounted.fits
  have hSize :
      (newsize s n : Int) =
        (s.nsampTrace + n) * 4 + sacHeaderSize :=
    newsize_eq (by omega) hInt
  rw [roomForGap_eq hCounted] at hRoom
  obtain rfl := Option.some.inj hRoom
  unfold SacState.Fits at hFits
  unfold SacState.buffersiz
  split_ifs with hGrow
  · simp only [SacState.room, reallocOutbuf]
    omega
  · simp only [SacState.room]
    omega

------------------------------------------------------------
-- One Iteration
------------------------------------------------------------

/-
  The condition on the state before an iteration.  A gap
  that is not bogus has a count of missing samples that is
  not negative, and asks for at most one growth; the samples
  of a packet that is stored keep the count an `int`.
-/
def NextKept [Rounding] (s : SacState) (p : Packet) : Prop :=
  if GapBefore s p then
    Bogus s (nfill s p) ∨
      (0 ≤ nfill s p ∧
        newsize s (nfill s p) ≤ s.buffersiz + growth * 4 ∧
        s.nsampTrace + nfill s p + p.nsamp < 2 ^ 31)
  else
    Duplicated s p ∨ s.nsampTrace + p.nsamp < 2 ^ 31

instance [Rounding] (s : SacState) (p : Packet) :
    Decidable (NextKept s p) := by
  unfold NextKept
  infer_instance

def CountKept [Rounding] (s : SacState) (p : Packet) : Prop :=
  if 0 < s.i then NextKept s p
  else s.nsampTrace + p.nsamp < 2 ^ 31

instance [Rounding] (s : SacState) (p : Packet) :
    Decidable (CountKept s p) := by
  unfold CountKept
  infer_instance

/- A packet behind a gap that is not bogus. -/
theorem gap_counted_iff
    {host : ByteOrder}
    {p : Packet}
    {k : SampleKind}
    {n : Nat}
    (h : p.WellFormed k n)
    {s t : SacState}
    {g : Int}
    (hCounted : s.Counted)
    (hRoom : roomForGap g s = some t)
    (hLow : -2 ^ 31 ≤ g)
    (hHigh : g < 2 ^ 31) :
    (∃ s', storePacket host p (fillGap g t) = some s' ∧
        s'.Counted) ↔
      0 ≤ g ∧ newsize s g ≤ s.buffersiz + growth * 4 ∧
        s.nsampTrace + g + p.nsamp < 2 ^ 31 := by
  rcases roomForGap_same hCounted hRoom with
    ⟨hTrace, hWords, hFits⟩
  have hCount : t.nsampTrace = t.words.length := by
    rw [hTrace, hWords]
    exact hCounted.count
  have hInt : t.nsampTrace < 2 ^ 31 := hTrace ▸ hCounted.int
  have hFill :
      (fillGap g t).nsampTrace = wrap32 (s.nsampTrace + g) := by
    rw [← hTrace]
    rfl
  have hNsamp := h.nsamp
  rw [storePacket_counted_iff h (fillGap_fits g hFits)
      (wrap32_lower _) (wrap32_upper _),
    fillGap_counted_iff hCount hInt hLow hHigh, hTrace, hFill]
  constructor
  · rintro ⟨⟨hNonneg, hLe, hSum⟩, hAll⟩
    rw [wrap32_of_mem (by omega) hSum] at hAll
    exact ⟨hNonneg,
      (roomForGap_enough_iff hCounted hRoom hNonneg hSum).mp hLe,
      hAll⟩
  · rintro ⟨hNonneg, hSize, hAll⟩
    have hSum : s.nsampTrace + g < 2 ^ 31 := by omega
    have hLe : g ≤ t.room :=
      (roomForGap_enough_iff hCounted hRoom hNonneg hSum).mpr
        hSize
    rw [wrap32_of_mem (by omega) hSum]
    exact ⟨⟨hNonneg, hLe, hSum⟩, hAll⟩

/- The body for every packet but the first. -/
theorem nextPacket_counted_iff
    [Rounding]
    {host : ByteOrder}
    {p : Packet}
    {k : SampleKind}
    {n : Nat}
    (h : p.WellFormed k n)
    {s : SacState}
    (hCounted : s.Counted) :
    (∃ s', nextPacket host p s = some s' ∧ s'.Counted) ↔
      NextKept s p := by
  unfold NextKept
  by_cases hGap : GapBefore s p
  · rw [if_pos hGap]
    by_cases hBogus : Bogus s (nfill s p)
    · rw [nextPacket_bogus host hGap hBogus]
      exact iff_of_true ⟨s, rfl, hCounted⟩ (Or.inl hBogus)
    · have hRange := nfill_range s p
      have hRoom := roomForGap_eq hCounted (nfill s p)
      rw [nextPacket_gap host hGap hBogus hRoom,
        or_iff_right hBogus]
      exact gap_counted_iff h hCounted hRoom hRange.1 hRange.2
  · rw [if_neg hGap]
    by_cases hDup : Duplicated s p
    · rw [nextPacket_duplicated host hGap hDup]
      exact iff_of_true ⟨s, rfl, hCounted⟩ (Or.inl hDup)
    · rw [nextPacket_stored host hGap hDup, or_iff_right hDup]
      exact hCounted.storePacket_iff h

/- The step lemma: `CountKept` is the exact condition. -/
theorem sacBody_counted_iff
    [Rounding]
    {host : ByteOrder}
    {p : Packet}
    {k : SampleKind}
    {n : Nat}
    (h : p.WellFormed k n)
    {s : SacState}
    (hCounted : s.Counted) :
    (∃ s', sacBody host s p = some s' ∧ s'.Counted) ↔
      CountKept s p := by
  have hMap :
      ∀ after : Option SacState,
        (∃ s', after.map (fun t => { t with i := s.i + 1 }) =
              some s' ∧ s'.Counted) ↔
          ∃ t, after = some t ∧ t.Counted := by
    intro after
    constructor
    · rintro ⟨s', hSome, hC⟩
      rcases Option.map_eq_some_iff.mp hSome with ⟨t, rfl, rfl⟩
      exact ⟨t, rfl, hC.count, hC.int, hC.room⟩
    · rintro ⟨t, rfl, hC⟩
      exact ⟨_, rfl, hC.count, hC.int, hC.room⟩
  by_cases hFirst : s.i = 0
  · have hC :
        SacState.Counted
          { s with
            samprate := p.samprate
            header := enrichSacStarttime s.header p.starttime } :=
      ⟨hCounted.count, hCounted.int, hCounted.room⟩
    have hCond :
        CountKept s p ↔ s.nsampTrace + p.nsamp < 2 ^ 31 := by
      simp [CountKept, hFirst]
    rw [sacBody_first host p hFirst, hMap, hCond]
    exact hC.storePacket_iff h
  · have hNext : 0 < s.i := Nat.pos_of_ne_zero hFirst
    have hC :
        SacState.Counted { s with samprate := p.samprate } :=
      ⟨hCounted.count, hCounted.int, hCounted.room⟩
    have hCond : CountKept s p ↔ NextKept s p := by
      simp [CountKept, hNext]
    rw [sacBody_next host p hNext, hMap, hCond]
    exact nextPacket_counted_iff h hC

------------------------------------------------------------
-- Whole Traces
------------------------------------------------------------

/- A gap that is not bogus is filled to its last sample. -/
def GapFilled [Rounding] (s : SacState) (p : Packet) : Prop :=
  0 < s.i → GapBefore s p → ¬ Bogus s (nfill s p) →
    ∀ t, roomForGap (nfill s p) s = some t →
      ((fillGap (nfill s p) t).words.length : Int) =
        s.words.length + nfill s p

theorem gapFilled_of_kept
    [Rounding]
    {s : SacState}
    {p : Packet}
    {k : SampleKind}
    {n : Nat}
    (h : p.WellFormed k n)
    (hCounted : s.Counted)
    (hKept : CountKept s p) :
    GapFilled s p := by
  intro hNext hGap hBogus t hRoom
  have hNsamp := h.nsamp
  rw [CountKept, if_pos hNext, NextKept, if_pos hGap,
    or_iff_right hBogus] at hKept
  rcases hKept with ⟨hNonneg, hSize, hAll⟩
  have hLe : nfill s p ≤ t.room :=
    (roomForGap_enough_iff hCounted hRoom hNonneg
      (by omega)).mpr hSize
  rw [length_fillGap hNonneg hLe,
    (roomForGap_same hCounted hRoom).2.1]

/-
  At the end of every iteration the count is the number of
  words stored and within the buffer, every accepted gap is
  filled, and the file holds exactly the words stored.
-/
structure CountMatches
    [Rounding]
    (host : ByteOrder)
    (now : Int)
    (outpath : List UInt8)
    (n : TraceNode)
    (packets : List Packet) : Prop where
  counted :
    ForLoop.Keeps (sacBody host) SacState.Counted
      (sacInit now n) packets
  filled :
    ForLoop.Along (sacBody host) GapFilled
      (sacInit now n) packets
  written :
    ∃ s f,
      packets.foldlM (sacBody host) (sacInit now n) = some s ∧
        sacprocTraceOutput host now outpath n packets = some f ∧
        f.data = s.words

theorem sacInit_counted
    (now : Int)
    (n : TraceNode) :
    (sacInit now n).Counted := by
  have hRoom : 0 ≤ (n.maxtbuf : Int) * 100 % 2 ^ 32 :=
    Int.emod_nonneg _ (by decide)
  refine ⟨rfl, by simp [sacInit], ?_⟩
  simpa [sacInit, SacState.buffersiz] using hRoom

/-
  The count matches the buffer in a whole trace exactly when
  every iteration keeps it.
-/
theorem count_matches_iff
    [Rounding]
    (host : ByteOrder)
    (now : Int)
    (outpath : List UInt8)
    (n : TraceNode)
    (packets : List Packet)
    (hWell : ∀ p ∈ packets, p.IsWellFormed) :
    CountMatches host now outpath n packets ↔
      ForLoop.Along (sacBody host) CountKept
        (sacInit now n) packets := by
  have hInit := sacInit_counted now n
  have hIff :
      ForLoop.Keeps (sacBody host) SacState.Counted
          (sacInit now n) packets ↔
        ForLoop.Along (sacBody host) CountKept
          (sacInit now n) packets := by
    apply ForLoop.keeps_iff_along _ hInit hWell
    rintro s p hCounted ⟨k, m, h⟩
    exact sacBody_counted_iff h hCounted
  constructor
  · intro hMatches
    exact hIff.mp hMatches.counted
  · intro hAlong
    have hKeeps := hIff.mpr hAlong
    rcases ForLoop.keeps_foldlM hInit hKeeps with
      ⟨s, hRun, hCounted⟩
    refine
      ⟨hKeeps, ?_, s,
        ⟨sacPath outpath n, finishHeader s, s.words⟩, hRun, ?_,
        rfl⟩
    · apply ForLoop.along_of_keeps _ hInit hWell hKeeps hAlong
      rintro t p hC ⟨k, m, h⟩ hKept
      exact gapFilled_of_kept h hC hKept
    · rw [sacprocTraceOutput_of_run outpath hRun,
        sacFinish_eq outpath n hCounted.count hCounted.int]

/- A trace with the slots every trace begins with. -/
def freshNode : TraceNode where
  sta := []
  chan := []
  net := []
  loc := []
  ntbuf := 0
  maxtbuf := maxNumTbuf
  tlist := []

attribute [local instance] Rounding.nearest

/- Two packets of one sample each. -/
theorem count_matches_pair :
    CountMatches .little 0 [] freshNode
        [Packet.single 0, Packet.single 1] ↔
      ForLoop.Along (sacBody .little) CountKept
        (sacInit 0 freshNode)
        [Packet.single 0, Packet.single 1] := by
  apply count_matches_iff .little 0 [] freshNode
  intro p hp
  rcases List.mem_pair.mp hp with rfl | rfl
  · exact ⟨.i4, 1, Packet.single_wellFormed 0⟩
  · exact ⟨.i4, 1, Packet.single_wellFormed 1⟩

/-
  A gap of 700000 samples after one: the buffer of 409600
  words grows by 204800, and the gap is cut short.
-/
theorem wide_gap_not_matches :
    ¬ CountMatches .little 0 [] freshNode
      [Packet.single 0, Packet.single 700000] := by
  intro hMatches
  rcases hMatches.counted with
    ⟨s, hFirst, hCounted, t, hSecond, hCounted', -⟩
  have hKept : CountKept s (Packet.single 700000) :=
    (sacBody_counted_iff (Packet.single_wellFormed 700000)
      hCounted).mp ⟨t, hSecond, hCounted'⟩
  rw [sacBody_first _ _ rfl,
    storePacket_eq (Packet.single_wellFormed 0) (Nat.zero_le _),
    if_pos (by decide)] at hFirst
  obtain rfl := Option.some.inj hFirst
  revert hKept
  decide +kernel

end TankConvertor
