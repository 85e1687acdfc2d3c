import TankConvertor.Sac.Dependence
import TankConvertor.Sac.Timeline

/-
  The time span that the SAC header states: `delta`, `b`,
  `e` and `npts`, against the times of the packets.

  `e` is computed from the number of samples instead of the
  number of intervals between them, and so lies one interval
  behind the last sample.

  Key definitions include:
    * `SacHeader.lastSample`
    * `SacHeader.StatesSpan`

  Key theorems include:
    * `samprate_of_run`
    * `span_of_contiguous`
    * `span_never_stated`
-/

------------------------------------------------------------
-- The Times In The Header
------------------------------------------------------------

namespace TankConvertor

attribute [local instance] Rounding.exact

namespace SacHeader

/- The time of the last sample, counted from the first. -/
def lastSample (h : SacHeader) : ℚ :=
  (h.float SacField.b).toRat +
    ((h.int SacField.npts : ℚ) - 1) *
      (h.float SacField.delta).toRat

/-
  The interval is that of the rate, and `e` is the time of
  the last sample as well as the end of the last packet.
-/
structure StatesSpan
    (sr : ℚ)
    (first last : Packet)
    (h : SacHeader) : Prop where
  finite :
    (h.float SacField.delta).IsFinite ∧
      (h.float SacField.b).IsFinite ∧
      (h.float SacField.e).IsFinite
  delta : (h.float SacField.delta).toRat = 1 / sr
  atEnd : h.lastSample = (h.float SacField.e).toRat
  stop :
    (h.float SacField.e).toRat =
      last.endtime.toRat - first.starttime.toRat

end SacHeader

/- `b` is zero from the default values on. -/
theorem b_finishHeader
    {s : SacState}
    {n : TraceNode}
    (hFloat : s.header.float = (sacHeaderOf n).float) :
    (finishHeader s).float SacField.b = ExtRat.ofInt 0 := by
  have hSame :
      (finishHeader s).float SacField.b =
        s.header.float SacField.b := by
    simp [finishHeader, SacHeader.setFloat, SacHeader.setInt,
      SacField.b, SacField.delta, SacField.e]
  rw [hSame, hFloat]
  simp [sacHeaderOf, enrichOrientation, enrichCodes, enrichCode,
    enrichHeaderDefault, SacHeader.setFloat, SacHeader.setInt,
    SacHeader.copyTo, SacField.b, SacField.cmpaz,
    SacField.cmpinc]

theorem delta_finishHeader
    (s : SacState) :
    (finishHeader s).float SacField.delta =
      ExtRat.ofInt 1 / s.samprate := by
  simp [finishHeader, SacHeader.setFloat, SacField.delta,
    SacField.e, Rounding.exact_single, Rounding.exact_double]

theorem e_finishHeader
    (s : SacState) :
    (finishHeader s).float SacField.e =
      ExtRat.ofInt s.nsampTrace *
        (ExtRat.ofInt 1 / s.samprate) := by
  simp [finishHeader, SacHeader.setFloat,
    Rounding.exact_single, Rounding.exact_double]

/- After the loop the rate is that of the last packet. -/
theorem samprate_of_run
    {host : ByteOrder}
    {s₀ s : SacState}
    {pre : List Packet}
    {last : Packet}
    (hRun :
      (pre ++ [last]).foldlM (sacBody host) s₀ = some s) :
    s.samprate = last.samprate := by
  cases hPre : pre.foldlM (sacBody host) s₀ with
  | none =>
      rw [List.foldlM_append, hPre] at hRun
      cases hRun
  | some t =>
      rw [ForLoop.foldlM_snoc hPre] at hRun
      exact samprate_of_sacBody host last hRun

------------------------------------------------------------
-- Contiguous Traces
------------------------------------------------------------

section Spans

variable {sr : ℚ}
variable {packets : List Packet}
variable {first last : Packet}

/-
  What the header of a contiguous trace says: the interval
  and the samples cover the time from the first start to the
  last end, and `e` is one interval more.
-/
theorem span_of_contiguous
    (host : ByteOrder)
    (now : Int)
    (outpath : List UInt8)
    (n : TraceNode)
    (hPos : 0 < sr)
    (hC : Contiguous sr packets)
    (hFirst : packets.head? = some first)
    (hLast : packets.getLast? = some last)
    {f : SacFile}
    (hFile :
      sacprocTraceOutput host now outpath n packets = some f) :
    (f.header.float SacField.delta).toRat = 1 / sr ∧
      f.header.lastSample =
        last.endtime.toRat - first.starttime.toRat ∧
      (f.header.float SacField.e).toRat =
        last.endtime.toRat - first.starttime.toRat + 1 / sr := by
  have hFew : totalSamples packets < 2 ^ 31 := by
    by_contra hLong
    rw [output_of_long host now outpath n hPos hC
      (not_lt.mp hLong)] at hFile
    cases hFile
  obtain ⟨pre, rfl⟩ := List.getLast?_eq_some_iff.mp hLast
  rcases exists_run_of_output hFile with ⟨s, hRun, hFinish⟩
  have hGathered := gathered_of_contiguous hPos hC hRun
  have hCounted :=
    hGathered.counted hC.wellFormed (List.append_nil _) hFew
  have hLen :
      s.nsampTrace = totalSamples (pre ++ [last]) := by
    rw [hCounted.count, hGathered.words,
      length_flatMap_words host hC.wellFormed]
  have hRate : s.samprate = .fin sr := by
    rw [samprate_of_run hRun]
    exact (hC.regular last (by simp)).samprate
  have hDelta :
      (ExtRat.ofInt 1 / s.samprate).IsFinite ∧
        (ExtRat.ofInt 1 / s.samprate).toRat = 1 / sr := by
    have hDiv :=
      ExtRat.div_finite (ExtRat.isFinite_ofInt 1)
        (ExtRat.isFinite_fin sr) hPos.ne'
    rw [hRate]
    simpa using hDiv
  have hEnd :=
    ExtRat.mul_finite (ExtRat.isFinite_ofInt s.nsampTrace)
      hDelta.1
  have hNpts : wrap32 s.nsampTrace = s.nsampTrace :=
    wrap32_of_mem (by omega) hCounted.int
  have hStop :
      last.endtime.toRat - first.starttime.toRat =
        ((s.nsampTrace : ℚ) - 1) * (1 / sr) := by
    have hSpan := stop_of_contiguous hPos hC hFirst
    rw [hLen, Int.cast_natCast, ← hSpan]
    field_simp
  rw [sacFinish_header hFinish, SacHeader.lastSample,
    b_finishHeader (float_of_run hRun), npts_finishHeader,
    delta_finishHeader, e_finishHeader, hEnd.2, hDelta.2,
    hNpts, hStop]
  refine ⟨rfl, ?_, ?_⟩
  · rw [ExtRat.toRat_ofInt, Int.cast_zero, zero_add]
  · rw [ExtRat.toRat_ofInt]
    ring

/-
  So no contiguous trace, of one sample or of many, has a
  file whose header states its time span.
-/
theorem span_never_stated
    (host : ByteOrder)
    (now : Int)
    (outpath : List UInt8)
    (n : TraceNode)
    (hPos : 0 < sr)
    (hC : Contiguous sr packets)
    (hFirst : packets.head? = some first)
    (hLast : packets.getLast? = some last) :
    ¬ ∃ f,
      sacprocTraceOutput host now outpath n packets = some f ∧
        f.header.StatesSpan sr first last := by
  rintro ⟨f, hFile, hStates⟩
  have hSpan :=
    span_of_contiguous host now outpath n hPos hC hFirst hLast
      hFile
  have hInterval : 0 < 1 / sr := one_div_pos.mpr hPos
  have hStop := hStates.stop
  rw [hSpan.2.2] at hStop
  linarith

end Spans

/- Two packets of one sample each. -/
theorem span_never_stated_two :
    ¬ ∃ f,
      sacprocTraceOutput .little 0 [] freshNode (singles 2) =
          some f ∧
        f.header.StatesSpan 1 (Packet.single 0)
          (Packet.single 1) :=
  span_never_stated .little 0 [] freshNode one_pos
    (singles_contiguous 2) rfl rfl

/-
  A trace of one sample: it begins and ends at time zero,
  but the header has it end at time one.
-/
theorem single_sample_span :
    Contiguous 1 (singles 1) ∧
      ∃ f,
        sacprocTraceOutput .little 0 [] freshNode (singles 1) =
            some f ∧
          (f.header.float SacField.e).toRat = 1 ∧
          ¬ f.header.StatesSpan 1 (Packet.single 0)
            (Packet.single 0) := by
  have hC := singles_contiguous 1
  have hFew : totalSamples (singles 1) < 2 ^ 31 := by
    rw [totalSamples_singles]
    norm_num
  rcases output_of_contiguous .little 0 [] freshNode one_pos hC
      hFew with ⟨f, hFile, _⟩
  have hHead : (singles 1).head? = some (Packet.single 0) := rfl
  have hLast : (singles 1).getLast? = some (Packet.single 0) :=
    rfl
  have hSpan :=
    span_of_contiguous .little 0 [] freshNode one_pos hC hHead
      hLast hFile
  have hEnd : (f.header.float SacField.e).toRat = 1 := by
    rw [hSpan.2.2]
    simp [Packet.single]
  refine ⟨hC, f, hFile, hEnd, ?_⟩
  intro hStates
  have hStop := hStates.stop
  rw [hEnd] at hStop
  simp [Packet.single] at hStop

end TankConvertor
