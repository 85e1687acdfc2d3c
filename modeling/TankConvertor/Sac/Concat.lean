import TankConvertor.Convert.Contiguous
import TankConvertor.Sac.Counter

/-
  The SAC file of a trace in which every packet is stored is
  the concatenation of its packets, however the tests on
  times are rounded.  With times as exact rationals the
  contiguous traces are of that kind.

  Key definitions include:
    * `Gathered` and `Stores`
    * `Unbroken`

  Key theorems include:
    * `gathered_step`
    * `output_of_unbroken`
    * `gapBefore_iff` and `duplicated_iff`
    * `output_of_contiguous`
    * `contiguous_concatenated`
-/

------------------------------------------------------------
-- One Packet
------------------------------------------------------------

namespace TankConvertor

/-
  The state after `pre`: its samples one after another, the
  count as an `int` holds it, and the last end time.
-/
structure Gathered
    (host : ByteOrder)
    (pre : List Packet)
    (s : SacState) : Prop where
  i : s.i = pre.length
  words : s.words = pre.flatMap (Packet.words host)
  count : s.nsampTrace = wrap32 s.words.length
  fits : s.Fits
  small : s.capacity < 2 ^ 32
  endtime : ∀ q ∈ pre.getLast?, s.endtime = q.endtime

theorem gathered_init
    (host : ByteOrder)
    (now : Int)
    (n : TraceNode) :
    Gathered host [] (sacInit now n) where
  i := rfl
  words := rfl
  count := by simp [sacInit, wrap32]
  fits := Nat.zero_le _
  small := by
    simp only [sacInit]
    omega
  endtime := by simp

/- Words that an `int` can count are counted. -/
theorem Gathered.counted
    {host : ByteOrder}
    {pre post packets : List Packet}
    {s : SacState}
    (hGathered : Gathered host pre s)
    (hWell : ∀ p ∈ packets, p.IsWellFormed)
    (hSplit : pre ++ post = packets)
    (hFew : totalSamples packets < 2 ^ 31) :
    s.Counted := by
  have hLen : s.words.length = totalSamples pre := by
    rw [hGathered.words]
    apply length_flatMap_words host
    intro p hp
    exact hWell p (hSplit ▸ List.mem_append_left post hp)
  have hTotal := hFew
  rw [← hSplit, totalSamples_append] at hTotal
  have hCount : s.nsampTrace = s.words.length := by
    rw [hGathered.count]
    exact wrap32_of_mem (by omega) (by omega)
  exact hGathered.fits.counted hCount (by omega)

section Rounded

variable [Rounding]

/- The body, where it does nothing but store the packet. -/
theorem sacBody_plain
    (host : ByteOrder)
    {s : SacState}
    {p : Packet}
    (hPlain : 0 < s.i → ¬ GapBefore s p ∧ ¬ Duplicated s p) :
    ∃ header,
      sacBody host s p =
        (storePacket host p
          { s with
            samprate := p.samprate
            header := header }).map
          (fun t => { t with i := s.i + 1 }) := by
  by_cases hFirst : s.i = 0
  · exact ⟨_, sacBody_first host p hFirst⟩
  · have hNext : 0 < s.i := Nat.pos_of_ne_zero hFirst
    rcases hPlain hNext with ⟨hGap, hDup⟩
    refine ⟨s.header, ?_⟩
    have hStored :
        nextPacket host p { s with samprate := p.samprate } =
          storePacket host p { s with samprate := p.samprate } :=
      nextPacket_stored host hGap hDup
    rw [sacBody_next host p hNext, hStored]

/- The state that such a body leaves. -/
theorem sacBody_plain_cases
    {host : ByteOrder}
    {s s' : SacState}
    {p : Packet}
    {k : SampleKind}
    {n : Nat}
    (h : p.WellFormed k n)
    (hFits : s.Fits)
    (hPlain : 0 < s.i → ¬ GapBefore s p ∧ ¬ Duplicated s p)
    (hBody : sacBody host s p = some s') :
    ∃ header capacity,
      s' =
          { advance p
              { s with
                samprate := p.samprate
                header := header
                words := s.words ++ p.words host
                capacity := capacity } with
            i := s.i + 1 } ∧
        s.words.length + n < capacity ∧
        (capacity = s.capacity ∨
          (capacity = s.capacity + growth ∧
            s.capacity < 2 ^ 31)) := by
  rcases sacBody_plain host hPlain with ⟨header, hPlainBody⟩
  rw [hPlainBody] at hBody
  rcases Option.map_eq_some_iff.mp hBody with ⟨t, hStore, rfl⟩
  have hFits' :
      SacState.Fits
        { s with samprate := p.samprate, header := header } :=
    hFits
  rcases storePacket_cases h hFits' hStore with
    ⟨capacity, rfl, hRoom, hCapacity⟩
  exact ⟨header, capacity, rfl, hRoom, hCapacity⟩

/- What an iteration that stores its packet leaves. -/
structure Stores
    (host : ByteOrder)
    (p : Packet)
    (s s' : SacState) : Prop where
  i : s'.i = s.i + 1
  words : s'.words = s.words ++ p.words host
  count : s'.nsampTrace = wrap32 (s.nsampTrace + p.nsamp)
  endtime : s'.endtime = p.endtime
  fits : s'.Fits
  small : s.capacity < 2 ^ 32 → s'.capacity < 2 ^ 32

theorem sacBody_stores
    {host : ByteOrder}
    {s s' : SacState}
    {p : Packet}
    (hWell : p.IsWellFormed)
    (hFits : s.Fits)
    (hPlain : 0 < s.i → ¬ GapBefore s p ∧ ¬ Duplicated s p)
    (hBody : sacBody host s p = some s') :
    Stores host p s s' := by
  rcases hWell with ⟨k, n, h⟩
  have hLen : (p.words host).length = n := h.length_words host
  rcases sacBody_plain_cases h hFits hPlain hBody with
    ⟨header, capacity, rfl, hRoom, hCapacity⟩
  refine ⟨rfl, rfl, rfl, rfl, ?_, ?_⟩
  · simp only [SacState.Fits, advance, List.length_append, hLen]
    exact hRoom.le
  · intro hSmall
    have hGrowth : growth = 204800 := rfl
    simp only [advance]
    omega

theorem gathered_step
    {host : ByteOrder}
    {pre : List Packet}
    {s s' : SacState}
    {p : Packet}
    (hWell : p.IsWellFormed)
    (hGathered : Gathered host pre s)
    (hPlain : 0 < s.i → ¬ GapBefore s p ∧ ¬ Duplicated s p)
    (hBody : sacBody host s p = some s') :
    Gathered host (pre ++ [p]) s' := by
  have hStores :=
    sacBody_stores hWell hGathered.fits hPlain hBody
  rcases hWell with ⟨k, n, h⟩
  have hCount := hStores.count
  constructor
  · simp [hStores.i, hGathered.i]
  · simp [hStores.words, hGathered.words]
  · rw [hStores.words, List.length_append,
      h.length_words host]
    rw [hGathered.count, h.nsamp, wrap32_wrap32_add] at hCount
    exact_mod_cast hCount
  · exact hStores.fits
  · exact hStores.small hGathered.small
  · intro q hq
    obtain rfl : p = q := by simpa using hq
    exact hStores.endtime

/- Up to `int` range the body does store the packet. -/
theorem gathered_isSome
    {host : ByteOrder}
    {pre : List Packet}
    {s : SacState}
    {p : Packet}
    (hWell : p.IsWellFormed)
    (hGathered : Gathered host pre s)
    (hPlain : 0 < s.i → ¬ GapBefore s p ∧ ¬ Duplicated s p)
    (hFew : s.words.length + p.nsamp.toNat < 2 ^ 31) :
    ∃ s', sacBody host s p = some s' := by
  rcases hWell with ⟨k, n, h⟩
  rcases sacBody_plain host hPlain with ⟨header, hPlainBody⟩
  rw [h.nsamp, Int.toNat_natCast] at hFew
  have hFits :
      SacState.Fits
        { s with samprate := p.samprate, header := header } :=
    hGathered.fits
  rcases storePacket_isSome host h hFits hFew with ⟨t, hStore⟩
  rw [hPlainBody, hStore]
  exact ⟨_, rfl⟩

------------------------------------------------------------
-- Whole Traces
------------------------------------------------------------

/-
  Behind the end time of the packet before it, no packet
  comes after a gap or is taken for a duplicate.
-/
def Unbroken (packets : List Packet) : Prop :=
  packets.IsChain (fun q p =>
    ∀ s : SacState, s.endtime = q.endtime →
      ¬ GapBefore s p ∧ ¬ Duplicated s p)

/- In such a trace every packet is stored as it is. -/
theorem plain_of_unbroken
    {host : ByteOrder}
    {pre post : List Packet}
    {p : Packet}
    {s : SacState}
    (hUnbroken : Unbroken (pre ++ p :: post))
    (hGathered : Gathered host pre s) :
    0 < s.i → ¬ GapBefore s p ∧ ¬ Duplicated s p := by
  intro hNext
  have hNe : pre ≠ [] := by
    rintro rfl
    rw [hGathered.i] at hNext
    exact hNext.ne rfl
  have hLast := List.getLast?_eq_some_getLast hNe
  have hSplit := List.isChain_append.mp hUnbroken
  exact hSplit.2.2 _ hLast p (by simp) s
    (hGathered.endtime _ hLast)

theorem gathered_of_run
    {host : ByteOrder}
    {now : Int}
    {n : TraceNode}
    {packets : List Packet}
    (hWell : ∀ p ∈ packets, p.IsWellFormed)
    (hUnbroken : Unbroken packets)
    {s : SacState}
    (hRun :
      packets.foldlM (sacBody host) (sacInit now n) = some s) :
    Gathered host packets s := by
  apply ForLoop.foldlM_prefix_of_some (Gathered host) packets
    (gathered_init host now n) _ hRun
  intro pre p post t t' hSplit hGathered hBody
  exact gathered_step (hWell p (hSplit ▸ by simp)) hGathered
    (plain_of_unbroken (hSplit ▸ hUnbroken) hGathered) hBody

/- Packets are stored up to the range of an `int`. -/
theorem gathered_goes_on
    {host : ByteOrder}
    {packets : List Packet}
    (hWell : ∀ p ∈ packets, p.IsWellFormed)
    (hUnbroken : Unbroken packets)
    (hFew : totalSamples packets < 2 ^ 31) :
    ∀ pre p post s, pre ++ p :: post = packets →
      Gathered host pre s →
      ∃ s', sacBody host s p = some s' ∧
        Gathered host (pre ++ [p]) s' := by
  intro pre p post s hSplit hGathered
  have hHere : p.IsWellFormed := hWell p (hSplit ▸ by simp)
  have hPlain :=
    plain_of_unbroken (hSplit ▸ hUnbroken) hGathered
  have hLen : s.words.length = totalSamples pre := by
    rw [hGathered.words]
    apply length_flatMap_words host
    intro q hq
    exact hWell q (hSplit ▸ List.mem_append_left _ hq)
  have hTotal := hFew
  rw [← hSplit, totalSamples_append, totalSamples_cons] at hTotal
  rcases gathered_isSome hHere hGathered hPlain (by omega) with
    ⟨s', hBody⟩
  exact ⟨s', hBody, gathered_step hHere hGathered hPlain hBody⟩

/-
  The output: the concatenation of the samples, as long as
  an `int` can count them.
-/
theorem output_of_unbroken
    (host : ByteOrder)
    (now : Int)
    (outpath : List UInt8)
    (n : TraceNode)
    {packets : List Packet}
    (hWell : ∀ p ∈ packets, p.IsWellFormed)
    (hUnbroken : Unbroken packets)
    (hFew : totalSamples packets < 2 ^ 31) :
    ∃ f,
      sacprocTraceOutput host now outpath n packets = some f ∧
        f.header.int SacField.npts = totalSamples packets ∧
        f.data = packets.flatMap (Packet.words host) := by
  rcases ForLoop.foldlM_prefix (Gathered host) packets
      (gathered_init host now n)
      (gathered_goes_on hWell hUnbroken hFew) with
    ⟨s, hRun, hGathered⟩
  have hLen : s.words.length = totalSamples packets := by
    rw [hGathered.words]
    exact length_flatMap_words host hWell
  have hCounted :=
    hGathered.counted hWell (List.append_nil _) hFew
  have hCount := hCounted.count
  refine
    ⟨⟨sacPath outpath n, finishHeader s, s.words⟩, ?_, ?_,
      hGathered.words⟩
  · rw [sacprocTraceOutput_of_run outpath hRun,
      sacFinish_eq outpath n hCount hCounted.int]
  · rw [npts_finishHeader,
      wrap32_of_mem (by omega) hCounted.int, hCount, hLen]

/-
  At the end of every iteration the words are within the
  buffer and the count is theirs.
-/
theorem counted_of_unbroken
    (host : ByteOrder)
    (now : Int)
    (n : TraceNode)
    {packets : List Packet}
    (hWell : ∀ p ∈ packets, p.IsWellFormed)
    (hUnbroken : Unbroken packets)
    (hFew : totalSamples packets < 2 ^ 31) :
    ForLoop.Keeps (sacBody host) SacState.Counted
      (sacInit now n) packets := by
  apply ForLoop.keeps_of_prefix (Gathered host) packets
    (gathered_init host now n)
    (gathered_goes_on hWell hUnbroken hFew)
  intro pre post s hSplit hGathered
  exact hGathered.counted hWell hSplit hFew

end Rounded

------------------------------------------------------------
-- The Two Tests On Times
------------------------------------------------------------

attribute [local instance] Rounding.exact

section Times

variable {sr : ℚ}
variable {s : SacState}
variable {p : Packet}

/- `endtime` plus some sample intervals. -/
theorem toRat_add_intervals
    (hPos : 0 < sr)
    (hEnd : s.endtime.IsFinite)
    (hp : p.Timed sr)
    (n : Int) :
    (s.endtime + ExtRat.ofInt n / p.samprate).IsFinite ∧
      (s.endtime + ExtRat.ofInt n / p.samprate).toRat =
        s.endtime.toRat + n / sr := by
  have hDiv :=
    ExtRat.div_finite (ExtRat.isFinite_ofInt n)
      (ExtRat.isFinite_fin sr) hPos.ne'
  have hAdd := ExtRat.add_finite hEnd hDiv.1
  rw [hp.samprate]
  refine ⟨hAdd.1, ?_⟩
  rw [hAdd.2, hDiv.2, ExtRat.toRat_ofInt, ExtRat.toRat_fin]

theorem gapBefore_iff
    (hPos : 0 < sr)
    (hEnd : s.endtime.IsFinite)
    (hp : p.Timed sr) :
    GapBefore s p ↔
      s.endtime.toRat + 2 / sr < p.starttime.toRat := by
  have hSum := toRat_add_intervals hPos hEnd hp 2
  unfold GapBefore
  rw [Rounding.exact_double, Rounding.exact_double,
    ExtRat.lt_iff_of_finite hSum.1 hp.start, hSum.2]
  norm_num

theorem duplicated_iff
    (hPos : 0 < sr)
    (hEnd : s.endtime.IsFinite)
    (hp : p.Timed sr) :
    Duplicated s p ↔
      p.endtime.toRat < s.endtime.toRat + 1 / sr := by
  have hSum := toRat_add_intervals hPos hEnd hp 1
  unfold Duplicated
  rw [Rounding.exact_double, Rounding.exact_double,
    ExtRat.lt_iff_of_finite hp.stop hSum.1, hSum.2]
  norm_num

/- A packet is not over before it starts. -/
theorem Packet.Regular.start_le_stop
    (hPos : 0 < sr)
    (hp : p.Regular sr) :
    p.starttime.toRat ≤ p.endtime.toRat := by
  have hOne : (1 : ℚ) ≤ p.nsamp := by
    exact_mod_cast hp.pos
  have hSpan : 0 ≤ ((p.nsamp : ℚ) - 1) / sr :=
    div_nonneg (by linarith) hPos.le
  rw [hp.last]
  linarith

/- A packet that abuts the last one is stored as it is. -/
theorem plain_of_abuts
    {q : Packet}
    (hPos : 0 < sr)
    (hp : p.Regular sr)
    (hq : q.Regular sr)
    (hAbuts : q.Abuts sr p)
    (hEnd : s.endtime = q.endtime) :
    ¬ GapBefore s p ∧ ¬ Duplicated s p := by
  have hFinite : s.endtime.IsFinite := hEnd ▸ hq.stop
  have hStart :
      p.starttime.toRat = s.endtime.toRat + 1 / sr := by
    rw [hEnd]
    exact hAbuts
  have hStop := hp.start_le_stop hPos
  have hInterval : 0 < 1 / sr := one_div_pos.mpr hPos
  have hTwo : 2 / sr = 1 / sr + 1 / sr := by
    rw [← add_div]
    norm_num
  constructor
  · rw [gapBefore_iff hPos hFinite hp.timed, hStart, hTwo]
    linarith
  · rw [duplicated_iff hPos hFinite hp.timed]
    linarith

end Times

------------------------------------------------------------
-- Contiguous Traces
------------------------------------------------------------

theorem Contiguous.unbroken
    {sr : ℚ}
    (hPos : 0 < sr)
    {packets : List Packet}
    (hC : Contiguous sr packets) :
    Unbroken packets := by
  refine hC.chain.imp_of_mem_imp ?_
  intro q p hq hp hAbuts s hEnd
  exact plain_of_abuts hPos (hC.regular p hp) (hC.regular q hq)
    hAbuts hEnd

theorem plain_of_contiguous
    {host : ByteOrder}
    {sr : ℚ}
    (hPos : 0 < sr)
    {pre post : List Packet}
    {p : Packet}
    {s : SacState}
    (hC : Contiguous sr (pre ++ p :: post))
    (hGathered : Gathered host pre s) :
    0 < s.i → ¬ GapBefore s p ∧ ¬ Duplicated s p :=
  plain_of_unbroken (hC.unbroken hPos) hGathered

theorem gathered_of_contiguous
    {host : ByteOrder}
    {now : Int}
    {n : TraceNode}
    {sr : ℚ}
    (hPos : 0 < sr)
    {packets : List Packet}
    (hC : Contiguous sr packets)
    {s : SacState}
    (hRun :
      packets.foldlM (sacBody host) (sacInit now n) = some s) :
    Gathered host packets s :=
  gathered_of_run hC.wellFormed (hC.unbroken hPos) hRun

/- The samples of a contiguous trace, one after another. -/
theorem output_of_contiguous
    (host : ByteOrder)
    (now : Int)
    (outpath : List UInt8)
    (n : TraceNode)
    {sr : ℚ}
    (hPos : 0 < sr)
    {packets : List Packet}
    (hC : Contiguous sr packets)
    (hFew : totalSamples packets < 2 ^ 31) :
    ∃ f,
      sacprocTraceOutput host now outpath n packets = some f ∧
        f.header.int SacField.npts = totalSamples packets ∧
        f.data = packets.flatMap (Packet.words host) :=
  output_of_unbroken host now outpath n hC.wellFormed
    (hC.unbroken hPos) hFew

/- Beyond that there is no file. -/
theorem output_of_long
    (host : ByteOrder)
    (now : Int)
    (outpath : List UInt8)
    (n : TraceNode)
    {sr : ℚ}
    (hPos : 0 < sr)
    {packets : List Packet}
    (hC : Contiguous sr packets)
    (hLong : 2 ^ 31 ≤ totalSamples packets) :
    sacprocTraceOutput host now outpath n packets = none := by
  cases hRun :
      packets.foldlM (sacBody host) (sacInit now n) with
  | none => simp only [sacprocTraceOutput, hRun]
  | some s =>
      have hGathered := gathered_of_contiguous hPos hC hRun
      have hLen : s.words.length = totalSamples packets := by
        rw [hGathered.words]
        exact length_flatMap_words host hC.wellFormed
      have hFits : s.words.length ≤ s.capacity := hGathered.fits
      have hSmall := hGathered.small
      have hNeg : wrap32 s.nsampTrace < 0 := by
        have hWrap := wrap32_wrap32_add s.words.length 0
        rw [add_zero, add_zero] at hWrap
        rw [hGathered.count, hWrap]
        unfold wrap32
        omega
      rw [sacprocTraceOutput_of_run outpath hRun,
        sacFinish_of_neg outpath n hNeg]

end TankConvertor
