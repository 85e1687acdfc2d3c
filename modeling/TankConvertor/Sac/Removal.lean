import TankConvertor.Convert.Width
import TankConvertor.Sac.Counter
import TankConvertor.Sac.Skip

/-
  Whether a packet that the SAC converter passes over may be
  removed from the list.

  Key definitions include:
    * `Removable`
    * `marker`

  Key theorems include:
    * `removable_of_untouched`
    * `removable_last_iff`
    * `untouched_of_removable`
    * `skipped_removable_iff`
    * `oddFirst_not_removable`
-/

------------------------------------------------------------
-- Removing A Packet
------------------------------------------------------------

namespace TankConvertor

/- The file is the same without the packet. -/
def Removable
    [Rounding]
    (host : ByteOrder)
    (now : Int)
    (outpath : List UInt8)
    (n : TraceNode)
    (pre : List Packet)
    (x : Packet)
    (post : List Packet) : Prop :=
  sacprocTraceOutput host now outpath n (pre ++ x :: post) =
    sacprocTraceOutput host now outpath n (pre ++ post)

section

variable {host : ByteOrder} {now : Int}
variable {outpath : List UInt8} {n : TraceNode}
variable {pre : List Packet} {x : Packet} {s : SacState}

/- The output, from the state that the front has led to. -/
theorem output_append
    [Rounding]
    (hRun : pre.foldlM (sacBody host) (sacInit now n) = some s)
    (post : List Packet) :
    sacprocTraceOutput host now outpath n (pre ++ post) =
      match post.foldlM (sacBody host) s with
      | none => none
      | some t => sacFinish outpath n t := by
  simp only [sacprocTraceOutput, List.foldlM_append, hRun]
  rfl

/-
  An untouched packet may be removed unless it is the last
  one and its rate gives another sample period than that of
  the packet before it.
-/
theorem removable_of_untouched
    [Rounding]
    (hRun : pre.foldlM (sacBody host) (sacInit now n) = some s)
    (hPassed : PassedOver s x)
    (hUntouched : Untouched s x)
    (post : List Packet)
    (hRate :
      post = [] → deltaOf x.samprate = deltaOf s.samprate) :
    Removable host now outpath n pre x post := by
  have hReached := reached_of_run hRun
  rcases sacBody_passedOver host hReached.low hReached.high
      hPassed hUntouched with
    ⟨t, hBody, hAlike, hSamprate⟩
  have hRun' :
      (pre ++ [x]).foldlM (sacBody host) (sacInit now n) =
        some t :=
    (ForLoop.foldlM_snoc hRun).trans hBody
  have hSplit : pre ++ x :: post = (pre ++ [x]) ++ post := by
    simp
  have hRel :=
    foldlM_alike host post hAlike
      (fun hNil =>
        (congrArg deltaOf hSamprate).trans (hRate hNil))
  unfold Removable
  rw [hSplit, output_append hRun', output_append hRun]
  exact (finish_of_rel outpath n hRel).symm

/- What a file written says about the state. -/
theorem of_sacFinish
    [Rounding]
    {f : SacFile}
    (hFinish : sacFinish outpath n s = some f) :
    f.header = finishHeader s ∧ 0 ≤ wrap32 s.nsampTrace ∧
      wrap32 s.nsampTrace ≤ s.words.length := by
  simp only [sacFinish, writeSacFile, npts_finishHeader]
    at hFinish
  split_ifs at hFinish with hIn
  obtain rfl := Option.some.inj hFinish
  exact ⟨rfl, hIn⟩

/- A header that gives the hour has been given a start time. -/
theorem nzhour_finishHeader
    [Rounding]
    (t : SacState) :
    (finishHeader t).int SacField.nzhour =
      t.header.int SacField.nzhour := by
  simp [finishHeader, SacHeader.setInt, SacHeader.setFloat,
    SacField.nzhour, SacField.npts]

theorem nzhour_sacHeaderOf
    (n : TraceNode) :
    (sacHeaderOf n).int SacField.nzhour = sacUndefined := rfl

theorem nzhour_enrichSacStarttime
    [Rounding]
    (h : SacHeader)
    (starttime : ExtRat) :
    (enrichSacStarttime h starttime).int SacField.nzhour =
      starttime.truncTo (2 ^ 63) % secondsPerDay / 3600 := by
  simp [enrichSacStarttime, gmtime, SacHeader.setInt,
    SacField.nzhour, SacField.nzmin, SacField.nzsec,
    SacField.nzmsec]

/- No hour is the undefined one. -/
theorem nzhour_ne_undefined
    [Rounding]
    (h : SacHeader)
    (starttime : ExtRat) :
    (enrichSacStarttime h starttime).int SacField.nzhour ≠
      sacUndefined := by
  have hSecond :
      0 ≤ starttime.truncTo (2 ^ 63) % secondsPerDay :=
    Int.emod_nonneg _ (by decide)
  rw [nzhour_enrichSacStarttime]
  unfold sacUndefined
  omega

/- A packet passed over as the first one leaves its time. -/
theorem header_of_first
    [Rounding]
    {t : SacState}
    (hFirst : s.i = 0)
    (hPassed : PassedOver s x)
    (hBody : sacBody host s x = some t) :
    t.header = enrichSacStarttime s.header x.starttime := by
  have hFormat : x.format = none := by
    rcases hPassed with hFormat | ⟨hNext, _⟩
    · exact hFormat
    · omega
  rw [sacBody_first host x hFirst,
    storePacket_of_unknown hFormat] at hBody
  obtain rfl := Option.some.inj hBody
  rfl

/- One behind a gap that is filled leaves the fill. -/
theorem nsampTrace_of_gap
    [Rounding]
    {t : SacState}
    (hNext : 0 < s.i)
    (hGap : GapBefore s x)
    (hBogus : ¬ Bogus s (nfill s x))
    (hPassed : PassedOver s x)
    (hBody : sacBody host s x = some t) :
    t.nsampTrace = wrap32 (s.nsampTrace + nfill s x) := by
  have hFormat : x.format = none := by
    rcases hPassed with hFormat | ⟨_, ⟨_, h⟩ | ⟨h, _⟩⟩
    · exact hFormat
    · exact (hBogus h).elim
    · exact (h hGap).elim
  rcases sacBody_cases hBody with
    ⟨u, rfl, ⟨hFirst, _⟩ | ⟨_, hAfter⟩⟩
  · omega
  · rcases nextPacket_cases hAfter with
      ⟨_, ⟨_, hOut⟩ | ⟨hOut, _⟩⟩ | ⟨_, _, v, hRoom, hStore⟩ |
        ⟨hOut, _⟩
    · exact (hBogus hOut).elim
    · exact (hOut hGap).elim
    · rw [storePacket_of_unknown hFormat] at hStore
      obtain rfl := Option.some.inj hStore
      rcases roomForGap_keeps hRoom with rfl | rfl
      · rfl
      · rfl
    · exact (hOut hGap).elim

/- Equal headers have equal counts. -/
theorem npts_of_header
    [Rounding]
    {s t : SacState}
    (hHeader : finishHeader t = finishHeader s) :
    wrap32 t.nsampTrace = wrap32 s.nsampTrace := by
  rw [← npts_finishHeader, ← npts_finishHeader, hHeader]

/- Only at the start no packet has been read. -/
theorem nil_of_first
    [Rounding]
    (hRun : pre.foldlM (sacBody host) (sacInit now n) = some s)
    (hFirst : s.i = 0) :
    pre = [] := by
  rw [(reached_of_run hRun).index] at hFirst
  exact List.length_eq_zero_iff.mp hFirst

/- Equal headers: the packet was not the first one. -/
theorem started_of_header
    [Rounding]
    {t : SacState}
    (hRun : pre.foldlM (sacBody host) (sacInit now n) = some s)
    (hPassed : PassedOver s x)
    (hBody : sacBody host s x = some t)
    (hHeader : finishHeader t = finishHeader s) :
    0 < s.i := by
  by_contra hNext
  have hFirst : s.i = 0 := by omega
  have hNil := nil_of_first hRun hFirst
  have hInit : s.header = sacHeaderOf n := by
    rw [hNil] at hRun
    exact congrArg SacState.header (Option.some.inj hRun).symm
  have hHour :=
    congrArg (fun h => h.int SacField.nzhour) hHeader
  simp only [nzhour_finishHeader] at hHour
  rw [header_of_first hFirst hPassed hBody, hInit,
    nzhour_sacHeaderOf] at hHour
  exact nzhour_ne_undefined _ _ hHour

/- Equal counts: no gap was filled for it. -/
theorem gapless_of_npts
    [Rounding]
    {t : SacState}
    {done : List Packet}
    (hReached : Reached done s)
    (hPassed : PassedOver s x)
    (hBody : sacBody host s x = some t)
    (hNpts : wrap32 t.nsampTrace = wrap32 s.nsampTrace)
    (hNext : 0 < s.i)
    (hLow : 0 ≤ wrap32 s.nsampTrace)
    (hHigh : wrap32 s.nsampTrace ≤ s.words.length)
    (hGap : GapBefore s x)
    (hBogus : ¬ Bogus s (nfill s x)) :
    nfill s x = 0 ∧ newsize s 0 ≤ s.buffersiz := by
  have hRange :
      -2 ^ 31 ≤ nfill s x ∧ nfill s x < 2 ^ 31 :=
    ExtRat.truncTo_range (2 ^ 31) (by decide) _
  have hFits := hReached.fits
  have hWrap : wrap32 s.nsampTrace = s.nsampTrace :=
    wrap32_of_mem hReached.low hReached.high
  rw [nsampTrace_of_gap hNext hGap hBogus hPassed hBody, hWrap,
    wrap32_of_mem (wrap32_lower _) (wrap32_upper _)] at hNpts
  rw [hWrap] at hLow hHigh
  constructor
  · unfold wrap32 at hNpts
    omega
  · have hHeaderSize : sacHeaderSize = 632 := rfl
    have hBound := hReached.high
    unfold SacState.Fits at hFits
    unfold newsize SacState.buffersiz
    rw [add_zero, hWrap]
    omega

/- A packet that may be removed from a file can be stored. -/
theorem exists_body_of_removable
    [Rounding]
    {post : List Packet}
    {g : SacFile}
    (hRun : pre.foldlM (sacBody host) (sacInit now n) = some s)
    (hRemovable : Removable host now outpath n pre x post)
    (hPlain :
      sacprocTraceOutput host now outpath n (pre ++ post) =
        some g) :
    ∃ t, sacBody host s x = some t := by
  unfold Removable at hRemovable
  rw [hPlain] at hRemovable
  rcases exists_run_of_output hRemovable with ⟨_, hLong, _⟩
  rcases ForLoop.foldlM_append_eq_some.mp hLong with
    ⟨v, hPre, hRest⟩
  obtain rfl : s = v := Option.some.inj (hRun.symm.trans hPre)
  rcases ForLoop.foldlM_cons_eq_some.mp hRest with ⟨t, hBody, _⟩
  exact ⟨t, hBody⟩

/- The output with two more packets. -/
theorem output_two
    [Rounding]
    {y : Packet}
    {t u : SacState}
    (hRun : pre.foldlM (sacBody host) (sacInit now n) = some s)
    (hBody : sacBody host s x = some t)
    (hNext : sacBody host t y = some u) :
    sacprocTraceOutput host now outpath n (pre ++ [x, y]) =
      sacFinish outpath n u := by
  have hTwo :
      (pre ++ [x, y]).foldlM (sacBody host) (sacInit now n) =
        some u := by
    refine ForLoop.foldlM_append_eq_some.mpr ⟨s, hRun, ?_⟩
    refine ForLoop.foldlM_cons_eq_some.mpr ⟨t, hBody, ?_⟩
    exact ForLoop.foldlM_cons_eq_some.mpr ⟨u, hNext, rfl⟩
  exact sacprocTraceOutput_of_run outpath hTwo

/-
  As the last one, an untouched packet of the same sample
  period is all that may be removed.
-/
theorem removable_last_iff
    [Rounding]
    (hRun : pre.foldlM (sacBody host) (sacInit now n) = some s)
    (hPassed : PassedOver s x)
    (hFile :
      ∃ f, sacprocTraceOutput host now outpath n pre = some f) :
    Removable host now outpath n pre x [] ↔
      Untouched s x ∧
        deltaOf x.samprate = deltaOf s.samprate := by
  have hReached := reached_of_run hRun
  constructor
  · intro hRemovable
    rcases hFile with ⟨f, hFile⟩
    have hFinish : sacFinish outpath n s = some f := by
      rw [← sacprocTraceOutput_of_run outpath hRun]
      exact hFile
    have hFile' := hFile
    rw [← List.append_nil pre] at hFile'
    rcases exists_body_of_removable hRun hRemovable hFile' with
      ⟨t, hBody⟩
    have hRun' :
        (pre ++ [x]).foldlM (sacBody host) (sacInit now n) =
          some t :=
      (ForLoop.foldlM_snoc hRun).trans hBody
    unfold Removable at hRemovable
    rw [List.append_nil, hFile,
      sacprocTraceOutput_of_run outpath hRun'] at hRemovable
    rcases of_sacFinish hFinish with ⟨hOld, hLow, hHigh⟩
    have hHeader : finishHeader t = finishHeader s :=
      (of_sacFinish hRemovable).1.symm.trans hOld
    have hRate : deltaOf x.samprate = deltaOf s.samprate := by
      have hField :=
        congrArg (fun h => h.float SacField.delta) hHeader
      rw [← samprate_of_sacBody host x hBody]
      simpa [finishHeader, deltaOf, SacHeader.setFloat,
        SacField.delta, SacField.e, SacHeader.setInt]
        using hField
    have hNext := started_of_header hRun hPassed hBody hHeader
    refine ⟨⟨hNext, ?_⟩, hRate⟩
    intro hGap hBogus
    exact gapless_of_npts hReached hPassed hBody
      (npts_of_header hHeader) hNext hLow hHigh hGap hBogus
  · rintro ⟨hUntouched, hRate⟩
    exact removable_of_untouched hRun hPassed hUntouched []
      (fun _ => hRate)

/- A count within the words gives a file. -/
theorem sacFinish_of_count
    [Rounding]
    (outpath : List UInt8)
    (n : TraceNode)
    {s : SacState}
    (hLow : 0 ≤ wrap32 s.nsampTrace)
    (hHigh : wrap32 s.nsampTrace ≤ s.words.length) :
    ∃ f,
      sacFinish outpath n s = some f ∧
        f.header = finishHeader s := by
  simp only [sacFinish, writeSacFile, npts_finishHeader]
  rw [if_pos ⟨hLow, hHigh⟩]
  exact ⟨_, rfl, rfl⟩

/-
  A packet that no state takes for a gap, of a width that the
  copy does not know: datatype "i42", no rate.
-/
def marker (hour : Int) (endtime : ExtRat) : Packet where
  nsamp := 0
  starttime := ExtRat.ofInt (3600 * hour)
  endtime := endtime
  samprate := .nan
  text := fun i => [ch 'i', ch '4', ch '2'].getD i 0
  size := 64

theorem format_marker
    (hour : Int)
    (endtime : ExtRat) :
    (marker hour endtime).format = none := by
  have hText :
      formatOf ([ch 'i', ch '4', ch '2'].getD 0 0)
        (atoi
          ((List.range 20).map
            (fun i =>
              [ch 'i', ch '4', ch '2'].getD (1 + i) 0))) =
        none := by decide
  exact hText

theorem not_gapBefore_marker
    [Rounding]
    (s : SacState)
    (hour : Int)
    (endtime : ExtRat) :
    ¬ GapBefore s (marker hour endtime) := by
  have hSum : s.endtime + (ExtRat.nan : ExtRat) = .nan := by
    change ExtRat.add s.endtime .nan = .nan
    cases s.endtime <;> rfl
  have hQuot : ExtRat.ofInt 2 / (ExtRat.nan : ExtRat) = .nan :=
    rfl
  unfold GapBefore
  change
    ¬ Rounding.double
        (s.endtime +
          Rounding.double
            (ExtRat.ofInt 2 / (ExtRat.nan : ExtRat))) < _
  rw [hQuot, Rounding.double_nan, hSum, Rounding.double_nan]
  exact fun h => h

/- Behind the first packet it leaves an alike state. -/
theorem sacBody_marker
    [Rounding]
    (host : ByteOrder)
    {done : List Packet}
    {s : SacState}
    (hReached : Reached done s)
    (hNext : 0 < s.i)
    (hour : Int)
    (endtime : ExtRat) :
    ∃ t,
      sacBody host s (marker hour endtime) = some t ∧
        Alike s t := by
  have hUntouched : Untouched s (marker hour endtime) :=
    ⟨hNext,
      fun hGap => (not_gapBefore_marker _ _ _ hGap).elim⟩
  rcases sacBody_passedOver host hReached.low hReached.high
      (Or.inl (format_marker hour endtime)) hUntouched with
    ⟨t, hBody, hAlike, _⟩
  exact ⟨t, hBody, hAlike⟩

/- As the first packet it leaves its hour. -/
theorem output_marker
    [Rounding]
    (host : ByteOrder)
    (now : Int)
    (outpath : List UInt8)
    (n : TraceNode)
    {hour : Int}
    (hDay : 0 ≤ hour ∧ hour < 24)
    (endtime : ExtRat) :
    ∃ f,
      sacprocTraceOutput host now outpath n
          [marker hour endtime] = some f ∧
        f.header.int SacField.nzhour = hour := by
  let t : SacState :=
    { sacInit now n with
      i := 1
      samprate := .nan
      header :=
        enrichSacStarttime (sacHeaderOf n)
          (ExtRat.ofInt (3600 * hour)) }
  have hBody :
      sacBody host (sacInit now n) (marker hour endtime) =
        some t := by
    rw [sacBody_first host _ rfl,
      storePacket_of_unknown (format_marker hour endtime)]
    rfl
  have hRun :
      [marker hour endtime].foldlM (sacBody host)
          (sacInit now n) = some t := by
    rw [List.foldlM_cons, hBody]
    rfl
  rw [sacprocTraceOutput_of_run outpath hRun]
  rcases sacFinish_of_count outpath n (s := t)
      (by simp [t, sacInit, wrap32])
      (by simp [t, sacInit, wrap32]) with
    ⟨f, hFinish, hHeader⟩
  refine ⟨f, hFinish, ?_⟩
  rw [hHeader, nzhour_finishHeader]
  have hTrunc :
      (ExtRat.ofInt (3600 * hour)).truncTo (2 ^ 63) =
        3600 * hour :=
    ExtRat.truncTo_of_eq (ExtRat.isFinite_ofInt _)
      (ExtRat.toRat_ofInt _) (by omega) (by omega)
  rw [nzhour_enrichSacStarttime, hTrunc]
  unfold secondsPerDay
  omega

/- Behind any packet a marker leaves an alike state. -/
theorem marker_behind
    [Rounding]
    {t : SacState}
    (hReached : Reached pre s)
    (hBody : sacBody host s x = some t)
    (hour : Int)
    (endtime : ExtRat) :
    ∃ u,
      sacBody host t (marker hour endtime) = some u ∧
        Alike t u := by
  have hReached' := reached_step hReached hBody
  have hNext : 0 < t.i := by
    rw [hReached'.index]
    simp
  exact sacBody_marker host hReached' hNext hour endtime

/- A marker shows a fill that was left in the count. -/
theorem gapless_of_removable
    [Rounding]
    (hRun : pre.foldlM (sacBody host) (sacInit now n) = some s)
    (hPassed : PassedOver s x)
    (hLow : 0 ≤ wrap32 s.nsampTrace)
    (hHigh : wrap32 s.nsampTrace ≤ s.words.length)
    (hNext : 0 < s.i)
    (hRemovable :
      Removable host now outpath n pre x [marker 0 x.endtime])
    (hGap : GapBefore s x)
    (hBogus : ¬ Bogus s (nfill s x)) :
    nfill s x = 0 ∧ newsize s 0 ≤ s.buffersiz := by
  have hReached := reached_of_run hRun
  rcases sacBody_marker host hReached hNext 0 x.endtime with
    ⟨v, hv, hsv⟩
  have hPlain :
      sacprocTraceOutput host now outpath n
          (pre ++ [marker 0 x.endtime]) =
        sacFinish outpath n v :=
    sacprocTraceOutput_of_run outpath
      ((ForLoop.foldlM_snoc hRun).trans hv)
  rcases sacFinish_of_count outpath n (s := v)
      (by rw [hsv.nsampTrace]; exact hLow)
      (by rw [hsv.nsampTrace, hsv.words]; exact hHigh) with
    ⟨g, hFinish, hHeader⟩
  rcases exists_body_of_removable hRun hRemovable
      (hPlain.trans hFinish) with
    ⟨t, hBody⟩
  rcases marker_behind hReached hBody 0 x.endtime with
    ⟨u, hu, htu⟩
  unfold Removable at hRemovable
  rw [hPlain, hFinish, output_two hRun hBody hu] at hRemovable
  have hCounts : wrap32 u.nsampTrace = wrap32 v.nsampTrace :=
    npts_of_header
      ((of_sacFinish hRemovable).1.symm.trans hHeader)
  rw [htu.nsampTrace, hsv.nsampTrace] at hCounts
  exact gapless_of_npts hReached hPassed hBody hCounts hNext
    hLow hHigh hGap hBogus

/- A marker shows a start time that was left. -/
theorem nzhour_of_removable
    [Rounding]
    {t : SacState}
    {hour : Int}
    (hRun : pre.foldlM (sacBody host) (sacInit now n) = some s)
    (hNil : pre = [])
    (hDay : 0 ≤ hour ∧ hour < 24)
    (hRemovable :
      Removable host now outpath n pre x
        [marker hour x.endtime])
    (hBody : sacBody host s x = some t) :
    t.header.int SacField.nzhour = hour := by
  rcases output_marker host now outpath n hDay x.endtime with
    ⟨g, hg, hgHour⟩
  rcases marker_behind (reached_of_run hRun) hBody hour
      x.endtime with
    ⟨u, hu, htu⟩
  unfold Removable at hRemovable
  rw [output_two hRun hBody hu, hNil, List.nil_append, hg]
    at hRemovable
  rw [← hgHour, (of_sacFinish hRemovable).1,
    nzhour_finishHeader, htu.header]

/- Two markers tell a first packet from no packet. -/
theorem started_of_removable
    [Rounding]
    (hRun : pre.foldlM (sacBody host) (sacInit now n) = some s)
    (hAll :
      ∀ hour,
        Removable host now outpath n pre x
          [marker hour x.endtime]) :
    0 < s.i := by
  by_contra hNext
  have hFirst : s.i = 0 := by omega
  have hNil := nil_of_first hRun hFirst
  have hDay : (0 : Int) ≤ 0 ∧ (0 : Int) < 24 := by decide
  rcases output_marker host now outpath n hDay x.endtime with
    ⟨g, hg, _⟩
  rcases exists_body_of_removable hRun (hAll 0)
      (by rw [hNil]; exact hg) with
    ⟨t, hBody⟩
  have hZero :=
    nzhour_of_removable hRun hNil hDay (hAll 0) hBody
  have hOne :=
    nzhour_of_removable hRun hNil (by decide) (hAll 1) hBody
  rw [hZero] at hOne
  cases hOne

/-
  What may be removed before any other packets is untouched:
  a marker behind it shows a fill that it left in the count,
  and two markers show a start time that it left.
-/
theorem untouched_of_removable
    [Rounding]
    (hRun : pre.foldlM (sacBody host) (sacInit now n) = some s)
    (hPassed : PassedOver s x)
    (hFile :
      ∃ f, sacprocTraceOutput host now outpath n pre = some f)
    (hAll :
      ∀ post, post ≠ [] →
        Removable host now outpath n pre x post) :
    Untouched s x := by
  rcases hFile with ⟨f, hFile⟩
  rw [sacprocTraceOutput_of_run outpath hRun] at hFile
  rcases of_sacFinish hFile with ⟨_, hLow, hHigh⟩
  have hMarkers (hour : Int) :
      Removable host now outpath n pre x
        [marker hour x.endtime] :=
    hAll [marker hour x.endtime] (List.cons_ne_nil _ _)
  have hNext := started_of_removable hRun hMarkers
  exact ⟨hNext,
    gapless_of_removable hRun hPassed hLow hHigh hNext
      (hMarkers 0)⟩

end

/-
  A packet that is passed over contributes nothing when it is
  untouched and does not end the list with another sample
  period, and under no weaker condition on what stands
  before it.
-/
theorem skipped_removable_iff
    [Rounding]
    {host : ByteOrder}
    {now : Int}
    {outpath : List UInt8}
    {n : TraceNode}
    {pre : List Packet}
    {x : Packet}
    {s : SacState}
    (hRun : pre.foldlM (sacBody host) (sacInit now n) = some s)
    (hPassed : PassedOver s x) :
    (∀ post, Untouched s x →
      (post = [] → deltaOf x.samprate = deltaOf s.samprate) →
        Removable host now outpath n pre x post) ∧
    ((∃ f,
        sacprocTraceOutput host now outpath n pre = some f) →
      (Removable host now outpath n pre x [] ↔
        Untouched s x ∧
          deltaOf x.samprate = deltaOf s.samprate) ∧
      ((∀ post, post ≠ [] →
          Removable host now outpath n pre x post) ↔
        Untouched s x)) := by
  have hEnough :
      ∀ post, Untouched s x →
        (post = [] → deltaOf x.samprate = deltaOf s.samprate) →
          Removable host now outpath n pre x post :=
    fun post hUntouched =>
      removable_of_untouched hRun hPassed hUntouched post
  refine ⟨hEnough, ?_⟩
  intro hFile
  refine ⟨removable_last_iff hRun hPassed hFile, ?_⟩
  constructor
  · exact untouched_of_removable hRun hPassed hFile
  · intro hUntouched post hPost
    exact hEnough post hUntouched (fun hNil => (hPost hNil).elim)

attribute [local instance] Rounding.nearest

/- A packet that comes twice may come once. -/
theorem skipped_removable_twice :
    Removable .little 0 [] freshNode [Packet.single 0]
      (Packet.single 0) [] := by
  let s : SacState :=
    { advance (Packet.single 0)
        { sacInit 0 freshNode with
          samprate := ExtRat.ofInt 1
          header :=
            enrichSacStarttime (sacHeaderOf freshNode)
              (ExtRat.ofInt 0)
          words := (Packet.single 0).words .little } with
      i := 1 }
  have hRun :
      [Packet.single 0].foldlM (sacBody .little)
          (sacInit 0 freshNode) = some s := by
    have hBody :
        sacBody .little (sacInit 0 freshNode)
          (Packet.single 0) = some s := by
      rw [sacBody_first _ _ rfl,
        storePacket_eq (Packet.single_wellFormed 0)
          (Nat.zero_le _), if_pos (by decide)]
      rfl
    rw [List.foldlM_cons, hBody]
    rfl
  have hGap : ¬ GapBefore s (Packet.single 0) := by
    decide +kernel
  have hPassed : PassedOver s (Packet.single 0) :=
    Or.inr ⟨by decide, Or.inr ⟨hGap, by decide +kernel⟩⟩
  have hUntouched : Untouched s (Packet.single 0) :=
    ⟨by decide, fun h => (hGap h).elim⟩
  exact (skipped_removable_iff hRun hPassed).1 [] hUntouched
    (fun _ => rfl)

/-
  A header of datatype "i42" at time 0, and behind it one
  sample that ends at time 1.
-/
def oddFirstTank : List UInt8 :=
  oddTank ++
    oneHeader [1, 0, 0, 0] [0, 0, 0, 0, 0, 0, 0xF0, 0x3F] ++
    [1, 2, 3, 4]

/-
  The scan stores both.  Converted at time 1000, the sample
  is a duplicate of the time that the loop began with; with
  the first entry removed it is written.
-/
theorem oddFirst_not_removable :
    ∃ r n x y,
      (scanLoop .little oddFirstTank.length).Ends
          (scanInit (mapTank oddFirstTank (fun _ => 0))) r ∧
        n ∈ r.traceList ∧ n.packets .little r.mem = [x, y] ∧
        x.format = none ∧
        ¬ Removable .little 1000 [] n [] x [y] := by
  -- What the node holds before it is sorted, and converted.
  have hScan :
      ((scanLoop .little oddFirstTank.length).exit 2
        (scanInit (mapTank oddFirstTank (fun _ => 0)))).map
          (fun t =>
            t.root.twalk.map
              (fun n =>
                decide
                  (n.ntbuf = 2 ∧ n.stored.length = 2 ∧
                    n.stored.Pairwise
                      (fun a b => compareTime a b ≤ 0) ∧
                    (n.stored.map (packetAt .little t.mem)).map
                        (fun p => p.format) = [none, some .i4] ∧
                    (sacprocTraceOutput .little 1000 []
                      (sortTlist n)
                      (n.stored.map
                        (packetAt .little t.mem))).map
                          (fun f => f.data.length) = some 0 ∧
                    (sacprocTraceOutput .little 1000 []
                      (sortTlist n)
                      (n.stored.map
                        (packetAt .little t.mem)).tail).map
                          (fun f => f.data.length) = some 1))) =
        some [true] := by
    decide +kernel
  rcases Option.map_eq_some_iff.mp hScan with ⟨t, hExit, hAll⟩
  rcases List.map_eq_singleton_iff.mp hAll with ⟨n, hn, hFacts⟩
  rcases of_decide_eq_true hFacts with
    ⟨hCount, hLength, hSorted, hFormats, hBoth, hLast⟩
  have hSort :
      n.stored.mergeSort (fun a b => compareTime a b ≤ 0) =
        n.stored := by
    apply List.mergeSort_of_pairwise
    exact hSorted.imp (fun h => decide_eq_true h)
  have hStored : (sortTlist n).stored = n.stored := by
    change (n.stored.mergeSort _ ++ n.tlist.drop n.ntbuf).take
      n.ntbuf = n.stored
    rw [hSort]
    exact List.take_left' (hLength.trans hCount.symm)
  have hPackets :
      (sortTlist n).packets .little t.mem =
        n.stored.map (packetAt .little t.mem) := by
    unfold TraceNode.packets
    rw [hStored]
  rcases List.length_eq_two.mp hLength with ⟨a, b, hPair⟩
  rw [hPair] at hPackets hFormats hBoth hLast
  refine
    ⟨scanFinish t, sortTlist n, packetAt .little t.mem a,
      packetAt .little t.mem b, DoLoop.ends_of_exit hExit, ?_,
      hPackets, (List.cons.inj hFormats).1, ?_⟩
  · exact List.mem_map.mpr ⟨n, by simp [hn], rfl⟩
  · intro hRemovable
    have hData := congrArg
      (fun o => o.map (fun f => f.data.length)) hRemovable
    have hSame := hBoth.symm.trans (hData.trans hLast)
    cases hSame

end TankConvertor
