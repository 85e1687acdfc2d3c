import TankConvertor.Convert.Tank
import TankConvertor.Sac.Concat

/-
  Contiguous traces as the scan finds them: their times and
  rates are doubles, and the tests on times are rounded as
  the machine rounds.

  Two doubles that lie one sample interval apart make the
  interval a power of two, so that nothing the tests compute
  is moved to the other side of a time.

  Key definitions include:
    * `Packet.OfDoubles`

  Key theorems include:
    * `packetAt_ofDoubles`
    * `Contiguous.unbroken_of_doubles`
    * `contiguous_concatenated_doubles`
-/

------------------------------------------------------------
-- Packets Of Doubles
------------------------------------------------------------

namespace TankConvertor

/- The times and the rate are read from 64 bits each. -/
structure Packet.OfDoubles (p : Packet) : Prop where
  starttime : ∃ bits, p.starttime = .ofBits64 bits
  endtime : ∃ bits, p.endtime = .ofBits64 bits
  samprate : ∃ bits, p.samprate = .ofBits64 bits

/- So they are in every packet of a tank. -/
theorem packetAt_ofDoubles
    (host : ByteOrder)
    (m : ByteMem)
    (e : TBuf) :
    (packetAt host m e).OfDoubles :=
  ⟨⟨_, rfl⟩, ⟨_, rfl⟩, ⟨_, rfl⟩⟩

/- A double holds its number. -/
theorem held_of_bits
    {x : ExtRat}
    (hBits : ∃ bits, x = .ofBits64 bits) :
    binary64.Holds x.toRat ∧ |x.toRat| < 2 ^ binary64.top := by
  rcases hBits with ⟨bits, rfl⟩
  exact ⟨BinaryFormat.holds_ofBits64 bits,
    BinaryFormat.abs_ofBits64_lt bits⟩

------------------------------------------------------------
-- The Tests, Rounded
------------------------------------------------------------

attribute [local instance] Rounding.nearest

section Times

variable {sr : ℚ}
variable {s : SacState}
variable {p : Packet}

/- Some intervals, where their length is a power of two. -/
theorem round_intervals
    (hPos : 0 < sr)
    (hRate : p.samprate = .fin sr)
    {n k : Int}
    (hPower : (n : ℚ) / sr = 2 ^ k)
    (hLeast : binary64.least ≤ k) :
    if k < binary64.top then
      (binary64.round (ExtRat.ofInt n / p.samprate)).IsFinite ∧
        (binary64.round (ExtRat.ofInt n / p.samprate)).toRat =
          n / sr
    else
      binary64.round (ExtRat.ofInt n / p.samprate) =
        .inf false := by
  have hDiv :=
    ExtRat.div_finite (ExtRat.isFinite_ofInt n)
      (ExtRat.isFinite_fin sr) hPos.ne'
  rw [ExtRat.toRat_ofInt, ExtRat.toRat_fin, hPower] at hDiv
  rw [hRate, hPower]
  have hHolds : binary64.Holds ((2 : ℚ) ^ k) :=
    BinaryFormat.holds_zpow hLeast
  split
  · rename_i hSmall
    rw [← hDiv.2]
    refine BinaryFormat.round_held hDiv.1 (hDiv.2.symm ▸ hHolds) ?_
    rw [hDiv.2, abs_of_pos (by positivity)]
    exact zpow_lt_zpow_right₀ (by norm_num) hSmall
  · rename_i hLarge
    refine BinaryFormat.round_of_large hDiv.1
      (hDiv.2.symm ▸ hHolds) ?_
    rw [hDiv.2]
    exact zpow_le_zpow_right₀ (by norm_num) (not_lt.mp hLarge)

/- Two intervals, or an infinity, reach the start at least. -/
theorem not_gapBefore_of_power
    (hPos : 0 < sr)
    (hp : p.Regular sr)
    (hHeld :
      binary64.Holds p.starttime.toRat ∧
        |p.starttime.toRat| < 2 ^ binary64.top)
    (hEnd : s.endtime.IsFinite)
    (hStart : p.starttime.toRat = s.endtime.toRat + 1 / sr)
    {k : Int}
    (hLeast : binary64.least ≤ k)
    (hPower : 1 / sr = 2 ^ k) :
    ¬ GapBefore s p := by
  have hTwo : ((2 : Int) : ℚ) / sr = 2 ^ (k + 1) := by
    rw [zpow_add_one₀ (by norm_num), ← hPower]
    push_cast
    ring
  have hBoth :=
    round_intervals hPos hp.samprate hTwo (by omega)
  change
    ¬ binary64.round
        (s.endtime +
          binary64.round (ExtRat.ofInt 2 / p.samprate)) <
      p.starttime
  split at hBoth
  · have hAdd := ExtRat.add_finite hEnd hBoth.1
    refine BinaryFormat.not_round_lt hHeld.1 hHeld.2 hAdd.1 ?_
      hp.start rfl
    rw [hAdd.2, hBoth.2, hStart, hTwo, hPower]
    gcongr
    · norm_num
    · omega
  · rw [hBoth, ExtRat.add_inf hEnd]
    exact ExtRat.not_inf_lt hp.start

/- One interval reaches it exactly. -/
theorem not_duplicated_of_power
    (hPos : 0 < sr)
    (hp : p.Regular sr)
    (hHeld :
      binary64.Holds p.starttime.toRat ∧
        |p.starttime.toRat| < 2 ^ binary64.top)
    (hEnd : s.endtime.IsFinite)
    (hStart : p.starttime.toRat = s.endtime.toRat + 1 / sr)
    {k : Int}
    (hLeast : binary64.least ≤ k)
    (hSmall : k < binary64.top)
    (hPower : 1 / sr = 2 ^ k) :
    ¬ Duplicated s p := by
  have hOne : ((1 : Int) : ℚ) / sr = 2 ^ k := by
    rw [← hPower, Int.cast_one]
  have hInterval :=
    round_intervals hPos hp.samprate hOne hLeast
  rw [if_pos hSmall] at hInterval
  have hAdd := ExtRat.add_finite hEnd hInterval.1
  rw [hInterval.2, Int.cast_one, ← hStart] at hAdd
  have hSum :=
    BinaryFormat.round_held hAdd.1 (hAdd.2.symm ▸ hHeld.1)
      (hAdd.2.symm ▸ hHeld.2)
  have hStop := hp.start_le_stop hPos
  change
    ¬ p.endtime <
      binary64.round
        (s.endtime +
          binary64.round (ExtRat.ofInt 1 / p.samprate))
  rw [ExtRat.lt_iff_of_finite hp.stop hSum.1, hSum.2, hAdd.2]
  exact not_lt.mpr hStop

/- A packet that abuts the last one is stored as it is. -/
theorem plain_of_abuts_doubles
    {q : Packet}
    (hPos : 0 < sr)
    (hRange : 1 / sr < 2 ^ binary64.top)
    (hp : p.Regular sr)
    (hq : q.Regular sr)
    (hpDoubles : p.OfDoubles)
    (hqDoubles : q.OfDoubles)
    (hAbuts : q.Abuts sr p)
    (hEnd : s.endtime = q.endtime) :
    ¬ GapBefore s p ∧ ¬ Duplicated s p := by
  have hFinite : s.endtime.IsFinite := hEnd ▸ hq.stop
  have hStart :
      p.starttime.toRat = s.endtime.toRat + 1 / sr := by
    rw [hEnd]
    exact hAbuts
  have hFrom := held_of_bits hpDoubles.starttime
  have hUpTo := held_of_bits hqDoubles.endtime
  have hRate := held_of_bits hpDoubles.samprate
  rw [hp.samprate, ExtRat.toRat_fin] at hRate
  rw [← hEnd] at hUpTo
  obtain ⟨k, hLeast, hPower⟩ :=
    BinaryFormat.inverse_of_difference hPos hRate.1 hUpTo.1
      hFrom.1 hStart
  have hSmall : k < binary64.top := by
    rw [hPower] at hRange
    exact (zpow_lt_zpow_iff_right₀ (by norm_num)).mp hRange
  exact
    ⟨not_gapBefore_of_power hPos hp hFrom hFinite hStart hLeast
        hPower,
      not_duplicated_of_power hPos hp hFrom hFinite hStart hLeast
        hSmall hPower⟩

end Times

------------------------------------------------------------
-- Contiguous Traces Of Doubles
------------------------------------------------------------

theorem Contiguous.unbroken_of_doubles
    {sr : ℚ}
    (hPos : 0 < sr)
    (hRange : 1 / sr < 2 ^ binary64.top)
    {packets : List Packet}
    (hC : Contiguous sr packets)
    (hDoubles : ∀ p ∈ packets, p.OfDoubles) :
    Unbroken packets := by
  refine hC.chain.imp_of_mem_imp ?_
  intro q p hq hp hAbuts s hEnd
  exact plain_of_abuts_doubles hPos hRange (hC.regular p hp)
    (hC.regular q hq) (hDoubles p hp) (hDoubles q hq) hAbuts hEnd

/-
  Rounded as the machine rounds, a contiguous trace of
  doubles is concatenated as well.
-/
theorem contiguous_concatenated_doubles
    (host : ByteOrder)
    (now : Int)
    (outpath : List UInt8)
    (n : TraceNode)
    {sr : ℚ}
    (hPos : 0 < sr)
    (hRange : 1 / sr < 2 ^ binary64.top)
    {packets : List Packet}
    (hC : Contiguous sr packets)
    (hDoubles : ∀ p ∈ packets, p.OfDoubles)
    (hFew : totalSamples packets < 2 ^ 31) :
    ForLoop.Keeps (sacBody host) SacState.Counted
        (sacInit now n) packets ∧
      ∃ f,
        sacprocTraceOutput host now outpath n packets = some f ∧
          f.header.int SacField.npts = totalSamples packets ∧
          f.data = packets.flatMap (Packet.words host) := by
  have hUnbroken :=
    hC.unbroken_of_doubles hPos hRange hDoubles
  exact
    ⟨counted_of_unbroken host now n hC.wellFormed hUnbroken hFew,
      output_of_unbroken host now outpath n hC.wellFormed
        hUnbroken hFew⟩

end TankConvertor
