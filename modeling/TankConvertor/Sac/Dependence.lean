import TankConvertor.Convert.Logical
import TankConvertor.Sac.Skip

/-
  What a SAC file depends on: the strings of the codes, the
  orientation that the channel's third byte names, the number
  of slots and the data of the packets.

  Key definitions include:
    * `TraceNode.SameHead`

  Key theorems include:
    * `sacBody_congr`
    * `sacprocTraceOutput_congr`
    * `orientation_of_output`
-/

------------------------------------------------------------
-- Packets With The Same Data
------------------------------------------------------------

namespace TankConvertor

section Congruence

variable {host : ByteOrder} {p q : Packet} {s : SacState}

theorem storePacket_congr
    (hSame : p.SameData q)
    (hWell : p.IsWellFormed)
    (hFits : s.Fits) :
    storePacket host p s = storePacket host q s := by
  rcases hWell with ⟨k, n, h⟩
  have hAdvance (u : SacState) : advance p u = advance q u := by
    unfold advance
    rw [hSame.endtime, hSame.nsamp]
  rw [storePacket_eq h hFits,
    storePacket_eq (hSame.wellFormed h) hFits,
    hSame.words_eq h, hAdvance, hAdvance]

theorem nextPacket_congr
    [Rounding]
    (hSame : p.SameData q)
    (hWell : p.IsWellFormed)
    (hFits : s.Fits) :
    nextPacket host p s = nextPacket host q s := by
  have hGap : GapBefore s p ↔ GapBefore s q := by
    unfold GapBefore
    rw [hSame.samprate, hSame.starttime]
  have hDup : Duplicated s p ↔ Duplicated s q := by
    unfold Duplicated
    rw [hSame.samprate, hSame.endtime]
  have hFill : nfill s p = nfill s q := by
    unfold nfill
    rw [hSame.samprate, hSame.starttime]
  simp only [nextPacket, hGap, hDup, hFill]
  split_ifs
  · rfl
  · cases hRoom : roomForGap (nfill s q) s with
    | none => rfl
    | some t =>
        have hFits' := roomForGap_fits hFits hRoom
        exact storePacket_congr hSame hWell
          (fillGap_bounded _ hFits').2.2
  · rfl
  · exact storePacket_congr hSame hWell hFits

theorem sacBody_congr
    [Rounding]
    (hSame : p.SameData q)
    (hWell : p.IsWellFormed)
    (hFits : s.Fits) :
    sacBody host s p = sacBody host s q := by
  have hFits' : SacState.Fits { s with samprate := q.samprate } :=
    hFits
  simp only [sacBody, hSame.samprate, hSame.starttime]
  rw [nextPacket_congr hSame hWell hFits',
    storePacket_congr hSame hWell (s := { s with
      samprate := q.samprate
      header := enrichSacStarttime s.header q.starttime })
      hFits]

theorem foldlM_sacBody_congr
    [Rounding]
    {ps qs : List Packet}
    (hBounded : s.Bounded)
    (hSame : List.Forall₂ Packet.SameData ps qs)
    (hWell : ∀ p ∈ ps, p.IsWellFormed) :
    ps.foldlM (sacBody host) s = qs.foldlM (sacBody host) s := by
  refine ForLoop.foldlM_congr (I := SacState.Bounded)
    (E := fun p q => p.IsWellFormed ∧ p.SameData q)
    ?_ ?_ hBounded ?_
  · intro u p q hU hPq
    exact sacBody_congr hPq.2 hPq.1 hU.2.2
  · intro u p _ u' hU _ hBody
    exact sacBody_bounded hU hBody
  · rw [List.forall₂_and_left]
    exact ⟨hWell, hSame⟩

end Congruence

------------------------------------------------------------
-- The Time Of The Conversion
------------------------------------------------------------

/- The first packet that is stored sets the end time. -/
theorem storePacket_endtime
    {host : ByteOrder}
    {p : Packet}
    {s : SacState}
    (hWell : p.IsWellFormed)
    (hFits : s.Fits)
    (e : ExtRat) :
    storePacket host p { s with endtime := e } =
      storePacket host p s := by
  rcases hWell with ⟨k, n, h⟩
  have hFits' : SacState.Fits { s with endtime := e } := hFits
  rw [storePacket_eq h hFits, storePacket_eq h hFits']
  rfl

/- The file does not depend on the time of the conversion. -/
theorem sacprocTraceOutput_now
    [Rounding]
    (host : ByteOrder)
    (now now' : Int)
    (outpath : List UInt8)
    (n : TraceNode)
    {packets : List Packet}
    (hWell : ∀ p ∈ packets, p.IsWellFormed) :
    sacprocTraceOutput host now outpath n packets =
      sacprocTraceOutput host now' outpath n packets := by
  cases packets with
  | nil => rfl
  | cons p packets =>
      have hFirst :
          sacBody host (sacInit now n) p =
            sacBody host (sacInit now' n) p := by
        have hNow :
            storePacket host p
                { sacInit now n with
                  samprate := p.samprate
                  header :=
                    enrichSacStarttime (sacInit now n).header
                      p.starttime } =
              storePacket host p
                { sacInit now' n with
                  samprate := p.samprate
                  header :=
                    enrichSacStarttime (sacInit now' n).header
                      p.starttime } :=
          storePacket_endtime
            (s := { sacInit now' n with
              samprate := p.samprate
              header :=
                enrichSacStarttime (sacInit now' n).header
                  p.starttime })
            (hWell p List.mem_cons_self) (Nat.zero_le _) _
        rw [sacBody_first host p rfl, sacBody_first host p rfl,
          hNow]
        rfl
      unfold sacprocTraceOutput
      rw [List.foldlM_cons, List.foldlM_cons, hFirst]

------------------------------------------------------------
-- The Trace
------------------------------------------------------------

/- Two traces of one key with the same number of slots. -/
structure TraceNode.SameHead (a b : TraceNode) : Prop where
  coded : Coded a
  coded' : Coded b
  codes : a.codes = b.codes
  maxtbuf : a.maxtbuf = b.maxtbuf

/- The codes as strings, wherever the node's bytes go on. -/
theorem TraceNode.SameHead.strings
    {a b : TraceNode}
    (h : a.SameHead b) :
    cstr a.fromSta = cstr b.fromSta ∧
      cstr a.fromChan = cstr b.fromChan ∧
      cstr a.fromNet = cstr b.fromNet ∧
      cstr a.fromLoc = cstr b.fromLoc :=
  (scnl_eq_iff a b).mp
    ((scnl_eq_iff_codes h.coded h.coded').mpr h.codes)

/-
  Traces of one key and one orientation, with packets of the
  same data, give the same file.
-/
theorem sacprocTraceOutput_congr
    [Rounding]
    (host : ByteOrder)
    (now now' : Int)
    (outpath : List UInt8)
    {a b : TraceNode}
    {ps qs : List Packet}
    (hHead : a.SameHead b)
    (hOrientation :
      orientation a.component = orientation b.component)
    (hSame : List.Forall₂ Packet.SameData ps qs)
    (hWell : ∀ p ∈ ps, p.IsWellFormed) :
    sacprocTraceOutput host now outpath a ps =
      sacprocTraceOutput host now' outpath b qs := by
  rcases hHead.strings with ⟨hSta, hChan, hNet, hLoc⟩
  have hHeader : sacHeaderOf a = sacHeaderOf b :=
    sacHeaderOf_congr hSta hChan hNet hLoc hOrientation
  have hInit : sacInit now' a = sacInit now' b := by
    unfold sacInit
    rw [hHeader, hHead.maxtbuf]
  have hPath : sacPath outpath a = sacPath outpath b := by
    unfold sacPath
    rw [hSta, hChan, hNet, hLoc]
  rw [sacprocTraceOutput_now host now now' outpath a hWell]
  unfold sacprocTraceOutput
  rw [foldlM_sacBody_congr (sacInit_bounded now' a) hSame hWell,
    hInit]
  unfold sacFinish
  rw [hPath]

------------------------------------------------------------
-- The Orientation
------------------------------------------------------------

/- No iteration touches a float of the header. -/
theorem sacBody_float
    [Rounding]
    {host : ByteOrder}
    {s s' : SacState}
    {p : Packet}
    (hBody : sacBody host s p = some s') :
    s'.header.float = s.header.float := by
  rcases sacBody_cases hBody with
    ⟨u, rfl, ⟨_, hStore⟩ | ⟨_, hNext⟩⟩
  · change u.header.float = _
    rw [(storePacket_keeps host p hStore).2.2]
    rfl
  · change u.header.float = _
    rw [(nextPacket_keeps host p hNext).2.2]

/- Nor does the whole loop. -/
theorem float_of_run
    [Rounding]
    {host : ByteOrder}
    {now : Int}
    {n : TraceNode}
    {packets : List Packet}
    {s : SacState}
    (hRun :
      packets.foldlM (sacBody host) (sacInit now n) = some s) :
    s.header.float = (sacHeaderOf n).float := by
  refine ForLoop.foldlM_mono
    (R := fun s t => t.header.float = s.header.float)
    (fun _ => rfl) ?_ ?_ hRun
  · intro s t u hst htu
    exact htu.trans hst
  · intro s p t hBody
    exact sacBody_float hBody

/- The file tells the orientation of its trace. -/
theorem orientation_of_output
    [Rounding]
    {host : ByteOrder}
    {now : Int}
    {outpath : List UInt8}
    {n : TraceNode}
    {packets : List Packet}
    {f : SacFile}
    (hFile :
      sacprocTraceOutput host now outpath n packets = some f) :
    orientation n.component =
      ((f.header.float SacField.cmpaz).toRat.num,
        (f.header.float SacField.cmpinc).toRat.num) := by
  rcases exists_run_of_output hFile with ⟨s, hRun, hFinish⟩
  have hAz :
      (finishHeader s).float SacField.cmpaz =
        s.header.float SacField.cmpaz := by
    simp [finishHeader, SacHeader.setFloat, SacHeader.setInt,
      SacField.cmpaz, SacField.delta, SacField.e]
  have hInc :
      (finishHeader s).float SacField.cmpinc =
        s.header.float SacField.cmpinc := by
    simp [finishHeader, SacHeader.setFloat, SacHeader.setInt,
      SacField.cmpinc, SacField.delta, SacField.e]
  rw [sacFinish_header hFinish, hAz, hInc, float_of_run hRun]
  exact orientation_of_sacHeaderOf n

end TankConvertor
