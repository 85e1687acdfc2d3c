import TankConvertor.Pipeline.Traces

/-
  Two conversions of the same tracebufs: in different file
  orders, different byte orders and at different times.

  Key definitions include:
    * `SameTrace`
    * `SameConversion`

  Key theorems include:
    * `recordsOf_congr`
    * `output_of_held`
    * `sameFile_iff`
    * `same_conversion_iff`
-/

------------------------------------------------------------
-- Records
------------------------------------------------------------

namespace TankConvertor

/- Packets with the same data give the same record. -/
theorem recordsOf_congr
    [Rounding]
    {p q : Packet}
    (hSame : p.SameData q)
    (hWell : p.IsWellFormed)
    (host : ByteOrder)
    (sid : SidArgs) :
    recordsOf host sid p = recordsOf host sid q := by
  rcases hWell with ⟨k, n, h⟩
  have hCount : p.nsamp.toNat = n := by
    rw [h.nsamp, Int.toNat_natCast]
  have hData :
      ∀ j ∈ List.range n,
        p.dataAt (k.width * j) k.width =
          q.dataAt (k.width * j) k.width :=
    fun j hj => hSame.dataAt_eq h (List.mem_range.mp hj)
  have hRaw : p.rawWords host k.width = q.rawWords host k.width := by
    unfold Packet.rawWords
    rw [← hSame.nsamp, hCount]
    apply List.map_congr_left
    intro j hj
    rw [hData j hj]
  have hInts : k = .i2 → p.int16s host = q.int16s host := by
    rintro rfl
    unfold Packet.int16s
    rw [← hSame.nsamp, hCount]
    apply List.map_congr_left
    intro j hj
    have hAt := hData j hj
    change p.dataAt (2 * j) 2 = q.dataAt (2 * j) 2 at hAt
    rw [hAt]
  have hSamples :
      samplesOf host k p ⟨p.int16s host, p.nsamp⟩ =
        samplesOf host k q ⟨q.int16s host, q.nsamp⟩ := by
    cases k with
    | i2 =>
        simp only [samplesOf]
        rw [hInts rfl, hSame.nsamp]
    | i4 =>
        change p.rawWords host 4 = q.rawWords host 4 at hRaw
        simp only [samplesOf]
        rw [hRaw]
    | f4 =>
        change p.rawWords host 4 = q.rawWords host 4 at hRaw
        simp only [samplesOf]
        rw [hRaw]
    | f8 => exact congrArg MsSamples.doubles hRaw
  have hFormat : q.format = some k := (hSame.wellFormed h).format
  unfold recordsOf
  rw [h.format, hFormat]
  unfold recordOf
  simp only
  rw [hSamples, hSame.starttime, hSame.samprate, hSame.nsamp]

theorem flatMap_recordsOf_congr
    [Rounding]
    {ps qs : List Packet}
    (hSame : List.Forall₂ Packet.SameData ps qs)
    (hWell : ∀ p ∈ ps, p.IsWellFormed)
    (host : ByteOrder)
    (sid : SidArgs) :
    ps.flatMap (recordsOf host sid) =
      qs.flatMap (recordsOf host sid) := by
  induction hSame with
  | nil => rfl
  | @cons p q ps qs hpq _ ih =>
      have hHead :=
        recordsOf_congr hpq (hWell p List.mem_cons_self) host sid
      rw [List.flatMap_cons, List.flatMap_cons, hHead,
        ih (fun r hr => hWell r (List.mem_cons_of_mem _ hr))]

/- The identifier depends on the strings of the codes. -/
theorem TraceNode.SameHead.sidArgs_eq
    {a b : TraceNode}
    (h : a.SameHead b) :
    sidArgsOf a = sidArgsOf b := by
  rcases h.strings with ⟨hSta, hChan, hNet, hLoc⟩
  have hNull :
      strcmp a.fromLoc locNullString ≠ 0 ↔
        strcmp b.fromLoc locNullString ≠ 0 := by
    rw [ne_eq, ne_eq, strcmp_eq_zero_iff, strcmp_eq_zero_iff,
      hLoc]
  unfold sidArgsOf
  simp only [hNull, hSta, hChan, hNet, hLoc]

------------------------------------------------------------
-- What The Converters Make Of A Trace
------------------------------------------------------------

section Held

variable [Rounding]
variable {host : ByteOrder}
variable {seen seen' : List CodeBytes}
variable {placed placed' : List (Int × Tracebuf)}
variable {s s' : ScanState} {v v' : TraceNode}

/- Traces of one key and one count have one head. -/
theorem sameHead_of_held
    (h : Held host seen placed s)
    (h' : Held host seen' placed' s')
    (hv : v ∈ s.root.twalk)
    (hv' : v' ∈ s'.root.twalk)
    (hCodes : v.codes = v'.codes)
    (hMax : v.maxtbuf = v'.maxtbuf) :
    (sortTlist v).SameHead (sortTlist v') where
  coded :=
    ⟨(h.coded v hv).sta, (h.coded v hv).chan,
      (h.coded v hv).net⟩
  coded' :=
    ⟨(h'.coded v' hv').sta, (h'.coded v' hv').chan,
      (h'.coded v' hv').net⟩
  codes := hCodes
  maxtbuf := hMax

/- The slots follow from the number of tracebufs. -/
theorem maxtbuf_eq_of_held
    (h : Held host seen placed s)
    (h' : Held host seen' placed' s')
    (hv : v ∈ s.root.twalk)
    (hv' : v' ∈ s'.root.twalk)
    (hCodes : v.codes = v'.codes)
    (hPerm :
      (placed.map Prod.snd).Perm (placed'.map Prod.snd)) :
    v.maxtbuf = v'.maxtbuf := by
  apply maxtbuf_eq_of_tight (h.ok.nodes v hv)
    (h'.ok.nodes v' hv') (h.tight v hv) (h'.tight v' hv')
  have hKeys := (hPerm.map Tracebuf.codes).count_eq v.codes
  rw [List.map_map, List.map_map] at hKeys
  rw [h.ntbuf_eq hv, h'.ntbuf_eq hv', ← hCodes]
  exact hKeys

/- A trace's file and records, in terms of its tracebufs. -/
theorem output_of_held
    (h : Held host seen placed s)
    (hv : v ∈ s.root.twalk)
    (now now' : Int)
    (outpath : List UInt8) :
    sacprocTraceOutput host now outpath (sortTlist v)
        ((sortTlist v).packets host s.mem) =
      sacprocTraceOutput host now' outpath (sortTlist v)
        ((sortedTracebufs v.codes
          (placed.map Prod.snd)).map (Tracebuf.packet host)) := by
  rcases packets_of_held h hv with ⟨hSame, hWell⟩
  exact sacprocTraceOutput_congr host now now' outpath
    (sameHead_of_held h h hv hv rfl rfl) rfl hSame hWell

/- Whether there is a file, in terms of its tracebufs. -/
theorem written_of_held
    (h : Held host seen placed s)
    (hv : v ∈ s.root.twalk)
    (now : Int)
    (outpath : List UInt8)
    (hNear :
      NearBy (sortedSpans v.codes (placed.map Prod.snd))) :
    (∃ f,
        sacprocTraceOutput host now outpath (sortTlist v)
            ((sortTlist v).packets host s.mem) =
          some f) ↔
      ShortTrace v.codes (placed.map Prod.snd) := by
  rw [output_of_held h hv now now]
  exact written_iff host now outpath
    (n := sortTlist v) (h.ok.nodes v hv).doubled
    (spans_sortedTracebufs host _ _) hNear

theorem records_of_held
    (h : Held host seen placed s)
    (hv : v ∈ s.root.twalk)
    (now : Int)
    (addmsr : MsRecord → Bool)
    (calls : List MsCall) :
    (msprocTlistAdd host now addmsr (bufAfter host calls)
        (sortTlist v)
        ((sortTlist v).packets host s.mem)).records =
      ((sortedTracebufs v.codes (placed.map Prod.snd)).map
        (Tracebuf.packet host)).flatMap
          (recordsOf host (sidArgsOf (sortTlist v))) := by
  rcases packets_of_held h hv with ⟨hSame, hWell⟩
  rw [records_eq]
  exact flatMap_recordsOf_congr hSame hWell host _

end Held

theorem packet_isWellFormed
    [Rounding]
    (host : ByteOrder)
    (ts : List Tracebuf) :
    ∀ p ∈ ts.map (Tracebuf.packet host), p.IsWellFormed := by
  intro p hp
  rcases List.mem_map.mp hp with ⟨t, _, rfl⟩
  exact ⟨_, _, packet_wellFormed host t⟩

theorem Packet.SameData.refl
    (p : Packet) :
    p.SameData p where
  nsamp := rfl
  starttime := rfl
  endtime := rfl
  samprate := rfl
  size := rfl
  format := rfl
  data := fun _ _ => rfl

------------------------------------------------------------
-- Two Conversions
------------------------------------------------------------

/-
  SAC files are written, and are the same, byte for byte; so
  are the records, whatever earlier calls have left in the
  static buffer.
-/
structure SameTrace
    [Rounding]
    (host : ByteOrder)
    (now now' : Int)
    (outpath : List UInt8)
    (m m' : ByteMem)
    (n n' : TraceNode) : Prop where
  file :
    ∃ f,
      sacprocTraceOutput host now outpath n (n.packets host m) =
          some f ∧
        sacprocTraceOutput host now' outpath n'
            (n'.packets host m') =
          some f
  records :
    ∀ (addmsr addmsr' : MsRecord → Bool)
      (calls calls' : List MsCall),
      (msprocTlistAdd host now addmsr (bufAfter host calls) n
          (n.packets host m)).records =
        (msprocTlistAdd host now' addmsr'
          (bufAfter host calls') n' (n'.packets host m')).records

structure SameConversion
    [Rounding]
    (host : ByteOrder)
    (now now' : Int)
    (outpath : List UInt8)
    (r r' : ScanResult) : Prop where
  ret : r.ret = r'.ret
  keys :
    r.traceList.map TraceNode.codes =
      r'.traceList.map TraceNode.codes
  traces :
    List.Forall₂ (SameTrace host now now' outpath r.mem r'.mem)
      r.traceList r'.traceList

/- Two lists with the same keys, pair by pair. -/
theorem forall₂_of_codes_eq
    {as bs : List TraceNode}
    {R : TraceNode → TraceNode → Prop}
    (hCodes :
      as.map TraceNode.codes = bs.map TraceNode.codes)
    (hPair :
      ∀ a ∈ as, ∀ b ∈ bs, a.codes = b.codes → R a b) :
    List.Forall₂ R as bs := by
  induction as generalizing bs with
  | nil =>
      rw [List.map_nil] at hCodes
      rw [List.map_eq_nil_iff.mp hCodes.symm]
      exact .nil
  | cons a as ih =>
      cases bs with
      | nil => simp at hCodes
      | cons b bs =>
          simp only [List.map_cons, List.cons.injEq] at hCodes
          refine .cons (hPair a (by simp) b (by simp) hCodes.1) ?_
          apply ih hCodes.2
          intro x hx y hy
          exact hPair x (List.mem_cons_of_mem _ hx) y
            (List.mem_cons_of_mem _ hy)

theorem exists_of_forall₂_codes
    {as bs : List TraceNode}
    {R : TraceNode → TraceNode → Prop}
    (hCodes :
      as.map TraceNode.codes = bs.map TraceNode.codes)
    (hAll : List.Forall₂ R as bs)
    {a : TraceNode}
    (ha : a ∈ as) :
    ∃ b ∈ bs, a.codes = b.codes ∧ R a b := by
  induction hAll with
  | nil => cases ha
  | @cons a' b' as bs hHead _ ih =>
      simp only [List.map_cons, List.cons.injEq] at hCodes
      rcases List.mem_cons.mp ha with rfl | hRest
      · exact ⟨b', List.mem_cons_self, hCodes.1, hHead⟩
      · rcases ih hCodes.2 hRest with ⟨b, hb, hPair⟩
        exact ⟨b, List.mem_cons_of_mem _ hb, hPair⟩

/- The same tracebufs have the same keys. -/
theorem keysOf_perm
    [Rounding]
    {xs ys : List Message}
    (hPerm :
      (xs.map Message.tracebuf).Perm
        (ys.map Message.tracebuf)) :
    (keysOf xs).Perm (keysOf ys) := by
  have hCodes := hPerm.map Tracebuf.codes
  rw [List.map_map, List.map_map] at hCodes
  exact hCodes

theorem few_perm
    [Rounding]
    {xs ys : List Message}
    (hKeys : (keysOf xs).Perm (keysOf ys)) :
    Few xs ↔ Few ys := by
  unfold Few
  simp only [hKeys.count_eq]

theorem few_of_short
    [Rounding]
    {xs : List Message}
    (hShort : xs.length < 2 ^ 31) :
    Few xs := by
  intro c
  have hLe := List.count_le_length (a := c) (l := keysOf xs)
  have hLength : (keysOf xs).length = xs.length :=
    List.length_map _
  omega

theorem startsAt_tank
    [Rounding]
    (xs : List Message)
    (around : ByteMem) :
    StartsAt 0 (scanInit (mapTank (tankOf xs) around)) :=
  ⟨rfl, rfl, rfl⟩

/-
  The files of a trace and its counterpart in another tank,
  provided that their packets make the same file.
-/
theorem sameFile_iff
    [Rounding]
    {host : ByteOrder}
    {xs ys : List Message}
    {placed placed' : List (Int × Tracebuf)}
    {s s' : ScanState}
    {v v' : TraceNode}
    (h : Held host (bytesOf xs) placed s)
    (h' : Held host (bytesOf ys) placed' s')
    (hv : v ∈ s.root.twalk)
    (hv' : v' ∈ s'.root.twalk)
    (hCodes : v.codes = v'.codes)
    (hMax : v.maxtbuf = v'.maxtbuf)
    (now now' : Int)
    (outpath : List UInt8)
    (hNear :
      NearBy (sortedSpans v.codes (placed.map Prod.snd)))
    (hPackets :
      sacprocTraceOutput host now' outpath (sortTlist v')
          ((sortedTracebufs v.codes
            (placed.map Prod.snd)).map
              (Tracebuf.packet host)) =
        sacprocTraceOutput host now' outpath (sortTlist v')
          ((sortedTracebufs v'.codes
            (placed'.map Prod.snd)).map
              (Tracebuf.packet host))) :
    (∃ f,
        sacprocTraceOutput host now outpath (sortTlist v)
              ((sortTlist v).packets host s.mem) =
            some f ∧
          sacprocTraceOutput host now' outpath (sortTlist v')
              ((sortTlist v').packets host s'.mem) =
            some f) ↔
      ShortTrace v.codes (placed.map Prod.snd) ∧
        SameOrientation xs ys v.codes := by
  let packets :=
    (sortedTracebufs v.codes (placed.map Prod.snd)).map
      (Tracebuf.packet host)
  have hHead := sameHead_of_held h h' hv hv' hCodes hMax
  have hWell : ∀ p ∈ packets, p.IsWellFormed :=
    packet_isWellFormed host _
  have hRefl : List.Forall₂ Packet.SameData packets packets :=
    List.forall₂_same.mpr (fun p _ => Packet.SameData.refl p)
  have hWritten := written_of_held h hv now outpath hNear
  have hLeft := output_of_held h hv now now' outpath
  have hRight := output_of_held h' hv' now' now' outpath
  rw [← hPackets] at hRight
  have hOrientation := sameOrientation_iff h h' hv hv' hCodes
  constructor
  · rintro ⟨f, hf, hf'⟩
    have hBoth :=
      (orientation_of_output hf).trans
        (orientation_of_output hf').symm
    exact ⟨hWritten.mp ⟨f, hf⟩, hOrientation.mpr hBoth⟩
  · rintro ⟨hShort, hSame⟩
    rcases hWritten.mpr hShort with ⟨f, hf⟩
    refine ⟨f, hf, ?_⟩
    rw [hRight, ← hf, hLeft]
    exact
      (sacprocTraceOutput_congr host now' now' outpath hHead
        (hOrientation.mp hSame) hRefl hWell).symm

section TwoTanks

variable [Rounding]
variable {host : ByteOrder}
variable {xs ys : List Message}
variable {s s' : ScanState} {v v' : TraceNode}

/-
  A trace and its counterpart: the records agree, and so do
  the files if they can be written and the orientations are
  the same.
-/
theorem sameTrace_iff
    (hPerm :
      (xs.map Message.tracebuf).Perm (ys.map Message.tracebuf))
    (hDistinct : DistinctEnds (xs.map Message.tracebuf))
    (h : Held host (bytesOf xs) (layout 0 xs) s)
    (h' : Held host (bytesOf ys) (layout 0 ys) s')
    (hv : v ∈ s.root.twalk)
    (hv' : v' ∈ s'.root.twalk)
    (hCodes : v.codes = v'.codes)
    (hNear :
      NearBy (sortedSpans v.codes (xs.map Message.tracebuf)))
    (now now' : Int)
    (outpath : List UInt8) :
    SameTrace host now now' outpath s.mem s'.mem (sortTlist v)
        (sortTlist v') ↔
      ShortTrace v.codes (xs.map Message.tracebuf) ∧
        SameOrientation xs ys v.codes := by
  have hPlaced :
      ((layout 0 xs).map Prod.snd).Perm
        ((layout 0 ys).map Prod.snd) := by
    rw [map_snd_layout, map_snd_layout]
    exact hPerm
  have hMax := maxtbuf_eq_of_held h h' hv hv' hCodes hPlaced
  have hHead := sameHead_of_held h h' hv hv' hCodes hMax
  have hSorted :
      sortedTracebufs v.codes ((layout 0 xs).map Prod.snd) =
        sortedTracebufs v'.codes
          ((layout 0 ys).map Prod.snd) := by
    rw [← hCodes]
    apply sortedTracebufs_perm hPlaced
    rw [map_snd_layout]
    exact hDistinct
  have hFile :=
    sameFile_iff h h' hv hv' hCodes hMax now now' outpath
      (by rw [map_snd_layout]; exact hNear) (by rw [hSorted])
  rw [map_snd_layout] at hFile
  constructor
  · intro hSame
    exact hFile.mp hSame.file
  · intro hOriented
    refine ⟨hFile.mpr hOriented, ?_⟩
    intro addmsr addmsr' calls calls'
    rw [records_of_held h hv, records_of_held h' hv',
      ← hSorted, hHead.sidArgs_eq]

/- The scans of two such tanks, as long as they succeed. -/
theorem conversions_of_few
    (host : ByteOrder)
    (now now' : Int)
    (outpath : List UInt8)
    (around around' : ByteMem)
    (hXs : xs ≠ [])
    (hPerm :
      (xs.map Message.tracebuf).Perm (ys.map Message.tracebuf))
    (hDistinct : DistinctEnds (xs.map Message.tracebuf))
    (hNear :
      ∀ c, NearBy (sortedSpans c (xs.map Message.tracebuf)))
    (hFew : Few xs) :
    ∃ r r',
      (scanLoop host (tankOf xs).length).Ends
          (scanInit (mapTank (tankOf xs) around)) r ∧
        (scanLoop host (tankOf ys).length).Ends
          (scanInit (mapTank (tankOf ys) around')) r' ∧
        (SameConversion host now now' outpath r r' ↔
          ∀ c ∈ keysOf xs,
            ShortTrace c (xs.map Message.tracebuf) ∧
              SameOrientation xs ys c) := by
  have hYs : ys ≠ [] := by
    rintro rfl
    exact hXs (List.map_eq_nil_iff.mp hPerm.eq_nil)
  have hKeys : (keysOf xs).Perm (keysOf ys) := keysOf_perm hPerm
  have hFewYs : Few ys := (few_perm hKeys).mp hFew
  rcases ends_of_grouped host (startsAt_tank xs around) hXs
      (holdsAt_mapTank _ _) (zero_add _).symm hFew with
    ⟨s, hEnds, h, _⟩
  rcases ends_of_grouped host (startsAt_tank ys around') hYs
      (holdsAt_mapTank _ _) (zero_add _).symm hFewYs with
    ⟨s', hEnds', h', _⟩
  have hCodes :
      s.root.twalk.map TraceNode.codes =
        s'.root.twalk.map TraceNode.codes := by
    apply codes_eq_of_shelved h.toShelved h'.toShelved
    intro c
    rw [strings_bytesOf, strings_bytesOf]
    exact hKeys.mem_iff
  refine ⟨_, _, hEnds, hEnds', ?_, ?_⟩
  · intro hSame c hc
    rw [← strings_bytesOf, h.mem_keys_iff] at hc
    rcases hc with ⟨v, hv, rfl⟩
    have hTraces := hSame.traces
    change
      List.Forall₂ _ (s.root.twalk.map sortTlist)
        (s'.root.twalk.map sortTlist) at hTraces
    rw [List.forall₂_map_left_iff,
      List.forall₂_map_right_iff] at hTraces
    rcases exists_of_forall₂_codes hCodes hTraces hv with
      ⟨v', hv', hPair, hTrace⟩
    exact
      (sameTrace_iff hPerm hDistinct h h' hv hv' hPair
        (hNear v.codes) now now' outpath).mp hTrace
  · intro hOriented
    refine ⟨?_, ?_, ?_⟩
    · change s.totaltrace = s'.totaltrace
      have hLength := congrArg List.length hCodes
      rw [List.length_map, List.length_map] at hLength
      rw [h.total, h'.total, hLength]
    · change
        (s.root.twalk.map sortTlist).map TraceNode.codes =
          (s'.root.twalk.map sortTlist).map TraceNode.codes
      rw [List.map_map, List.map_map]
      exact hCodes
    · change
        List.Forall₂ _ (s.root.twalk.map sortTlist)
          (s'.root.twalk.map sortTlist)
      rw [List.forall₂_map_left_iff,
        List.forall₂_map_right_iff]
      apply forall₂_of_codes_eq hCodes
      intro v hv v' hv' hSame
      have hKey : v.codes ∈ keysOf xs := by
        rw [← strings_bytesOf, h.mem_keys_iff]
        exact ⟨v, hv, rfl⟩
      exact
        (sameTrace_iff hPerm hDistinct h h' hv hv' hSame
          (hNear v.codes) now now' outpath).mpr
          (hOriented v.codes hKey)

/-
  Two tanks of the same tracebufs, in any file orders and
  byte orders, with distinct end times and no wide gap in any
  trace: they are converted alike exactly when an `int` can
  count the words of every trace and the tracebufs of every
  key that come first name the same orientation.
-/
theorem same_conversion_iff
    (host : ByteOrder)
    (now now' : Int)
    (outpath : List UInt8)
    (around around' : ByteMem)
    {xs ys : List Message}
    (hXs : xs ≠ [])
    (hPerm :
      (xs.map Message.tracebuf).Perm (ys.map Message.tracebuf))
    (hDistinct : DistinctEnds (xs.map Message.tracebuf))
    (hNear :
      ∀ c, NearBy (sortedSpans c (xs.map Message.tracebuf))) :
    ∃ r r',
      (scanLoop host (tankOf xs).length).Ends
          (scanInit (mapTank (tankOf xs) around)) r ∧
        (scanLoop host (tankOf ys).length).Ends
          (scanInit (mapTank (tankOf ys) around')) r' ∧
        (SameConversion host now now' outpath r r' ↔
          (Few xs →
            ∀ c ∈ keysOf xs,
              ShortTrace c (xs.map Message.tracebuf) ∧
                SameOrientation xs ys c)) := by
  by_cases hFew : Few xs
  · rcases conversions_of_few host now now' outpath around
        around' hXs hPerm hDistinct hNear hFew with
      ⟨r, r', hEnds, hEnds', hIff⟩
    refine ⟨r, r', hEnds, hEnds', hIff.trans ?_⟩
    exact ⟨fun hAll _ => hAll, fun hAll => hAll hFew⟩
  · -- Both scans fail, with no list of traces.
    have hManyYs : ¬ Few ys :=
      fun hc => hFew ((few_perm (keysOf_perm hPerm)).mpr hc)
    rcases ends_of_many host (startsAt_tank xs around)
        (holdsAt_mapTank _ _) (zero_add _).symm hFew with
      ⟨m, hEnds⟩
    rcases ends_of_many host (startsAt_tank ys around')
        (holdsAt_mapTank _ _) (zero_add _).symm hManyYs with
      ⟨m', hEnds'⟩
    refine ⟨_, _, hEnds, hEnds', ?_⟩
    refine iff_of_true ⟨rfl, rfl, .nil⟩ ?_
    intro hc
    exact (hFew hc).elim

end TwoTanks

------------------------------------------------------------
-- A Channel Of One Character
------------------------------------------------------------

/- The bits of zero and of one. -/
theorem ofBits64_zero :
    ExtRat.ofBits64 0 = ExtRat.ofInt 0 := by decide +kernel

theorem ofBits64_one :
    ExtRat.ofBits64 0x3FF0000000000000 = ExtRat.ofInt 1 := by
  decide +kernel

/-
  One sample at time 0 or 1, of channel `Z`; the byte behind
  the terminator of the channel is arbitrary.
-/
def channelZ [Rounding] (late : Bool) (third : UInt8) : Tracebuf :=
  { Tracebuf.plain with
    starttime := if late then 0x3FF0000000000000 else 0
    endtime := if late then 0x3FF0000000000000 else 0
    sta := ⟨[ch 'S', 0, 0, 0, 0, 0, 0], rfl, by decide⟩
    chan :=
      ⟨[ch 'Z', 0, third, 0], rfl, by
        rw [List.mem_cons, List.mem_cons]
        exact Or.inr (Or.inl rfl)⟩
    samples := [7]
    starttime_finite := by
      cases late <;> decide +kernel
    endtime_finite := by
      cases late <;> decide +kernel
    few := by
      change 1 ≤ SampleKind.i4.capacity
      decide
    sample_lt := by
      change ∀ x ∈ [7], x < 256 ^ 4
      decide
    consistent := by
      cases late
      · change
          ¬ EndtimeOff 1 (.ofBits64 0) (.ofBits64 0)
              (.ofBits64 0x3FF0000000000000)
        rw [ofBits64_zero, ofBits64_one]
        exact not_endtimeOff_of_whole
          (by decide) (by decide) (by decide)
      · change
          ¬ EndtimeOff 1 (.ofBits64 0x3FF0000000000000)
              (.ofBits64 0x3FF0000000000000)
              (.ofBits64 0x3FF0000000000000)
        rw [ofBits64_one]
        exact not_endtimeOff_of_whole
          (by decide) (by decide) (by decide) }

/- They are two tracebufs of one trace. -/
theorem sorted_channelZ
    [Rounding]
    (a b : UInt8) :
    sortedTracebufs (channelZ false a).codes
        [channelZ false a, channelZ true b] =
      [channelZ false a, channelZ true b] := by
  have hFilter :
      [channelZ false a, channelZ true b].filter
          (fun t => t.codes = (channelZ false a).codes) =
        [channelZ false a, channelZ true b] := by
    apply List.filter_eq_self.mpr
    intro t ht
    rw [decide_eq_true_iff]
    rcases List.mem_pair.mp ht with rfl | rfl <;> rfl
  have hTimes :
      (channelZ false a).noLater (channelZ true b) = true := by
    rw [Tracebuf.noLater_iff]
    change
      (ExtRat.ofBits64 0).toRat ≤
        (ExtRat.ofBits64 0x3FF0000000000000).toRat
    decide +kernel
  unfold sortedTracebufs
  rw [hFilter]
  apply List.mergeSort_of_pairwise
  simpa using hTimes

/- A tank with the earlier tracebuf first, and the reverse. -/
def zFirst [Rounding] : List Message :=
  [⟨.little, channelZ false (ch 'Z')⟩,
    ⟨.big, channelZ true (ch 'N')⟩]

def nFirst [Rounding] : List Message :=
  [⟨.little, channelZ true (ch 'N')⟩,
    ⟨.big, channelZ false (ch 'Z')⟩]

theorem zFirst_perm
    [Rounding] :
    (zFirst.map Message.tracebuf).Perm
      (nFirst.map Message.tracebuf) :=
  List.Perm.swap _ _ []

theorem zFirst_distinct
    [Rounding] :
    DistinctEnds (zFirst.map Message.tracebuf) := by
  have hTimes :
      (channelZ false (ch 'Z')).time.toRat ≠
        (channelZ true (ch 'N')).time.toRat := by
    change
      (ExtRat.ofBits64 0).toRat ≠
        (ExtRat.ofBits64 0x3FF0000000000000).toRat
    decide +kernel
  exact List.pairwise_pair.mpr fun _ => hTimes

/- The two tanks name orientations up and north. -/
theorem zFirst_not_sameOrientation
    [Rounding] :
    ¬ SameOrientation zFirst nFirst
      (channelZ false (ch 'Z')).codes := by
  intro hSame
  have hPair :=
    hSame ⟨.little, channelZ false (ch 'Z')⟩ (by rfl)
      ⟨.little, channelZ true (ch 'N')⟩ (by rfl)
  revert hPair
  change
    ¬ orientation ([ch 'Z', 0, ch 'Z', 0].getD 2 0) =
      orientation ([ch 'Z', 0, ch 'N', 0].getD 2 0)
  decide

/- There is no gap in them, however results are rounded. -/
theorem zFirst_near
    [Rounding]
    (c : Scnl) :
    NearBy (sortedSpans c (zFirst.map Message.tracebuf)) := by
  by_cases hKey : c = (channelZ false (ch 'Z')).codes
  · subst hKey
    have hSorted :
        sortedTracebufs (channelZ false (ch 'Z')).codes
            (zFirst.map Message.tracebuf) =
          [channelZ false (ch 'Z'), channelZ true (ch 'N')] :=
      sorted_channelZ _ _
    have hNoGap :
        ¬ Extent.Gap ⟨(channelZ false (ch 'Z')).span.stop, 1⟩
          (channelZ true (ch 'N')).span := by
      have hStop :
          (channelZ false (ch 'Z')).span.stop =
            ExtRat.ofInt 0 := by
        change (channelZ false (ch 'Z')).time = _
        exact ofBits64_zero
      have hStart :
          (channelZ true (ch 'N')).span.start =
            ExtRat.ofInt 1 := by
        change
          ExtRat.ofBits64
              (channelZ true (ch 'N')).starttime.toNat =
            _
        exact ofBits64_one
      have hRate :
          (channelZ true (ch 'N')).span.rate =
            ExtRat.ofInt 1 := by
        change
          ExtRat.ofBits64
              (channelZ true (ch 'N')).samprate.toNat =
            _
        exact ofBits64_one
      unfold Extent.Gap
      rw [hStop, hStart, hRate, ExtRat.ofInt_div_one,
        Rounding.double_ofInt 2 (by decide), ExtRat.ofInt_add,
        Rounding.double_ofInt _ (by decide),
        ExtRat.ofInt_lt_iff]
      decide
    unfold sortedSpans
    rw [hSorted]
    exact ⟨fun hGap => (hNoGap hGap).elim, trivial⟩
  · have hNone :
        sortedTracebufs c (zFirst.map Message.tracebuf) = [] := by
      apply List.eq_nil_iff_forall_not_mem.mpr
      intro t ht
      rcases mem_sortedTracebufs.mp ht with ⟨hMem, hCodes⟩
      apply hKey
      rcases List.mem_pair.mp hMem with rfl | rfl
      · exact hCodes.symm
      · exact hCodes.symm
    unfold sortedSpans
    rw [hNone]
    trivial

attribute [local instance] Rounding.nearest

theorem same_conversion_zFirst :
    ∃ r r',
      (scanLoop .little (tankOf zFirst).length).Ends
          (scanInit (mapTank (tankOf zFirst) (fun _ => 0))) r ∧
        (scanLoop .little (tankOf zFirst.reverse).length).Ends
          (scanInit
            (mapTank (tankOf zFirst.reverse) (fun _ => 1)))
          r' ∧
        (SameConversion .little 0 1 [] r r' ↔
          (Few zFirst →
            ∀ c ∈ keysOf zFirst,
              ShortTrace c (zFirst.map Message.tracebuf) ∧
                SameOrientation zFirst zFirst.reverse c)) :=
  same_conversion_iff .little 0 1 [] (fun _ => 0) (fun _ => 1)
    (List.cons_ne_nil _ _) (List.Perm.swap _ _ [])
    zFirst_distinct zFirst_near

/- The byte behind the terminator decides the orientation. -/
theorem zFirst_not_same_conversion :
    (zFirst.map Message.tracebuf).Perm
        (nFirst.map Message.tracebuf) ∧
      DistinctEnds (zFirst.map Message.tracebuf) ∧
      (∀ c,
        NearBy (sortedSpans c (zFirst.map Message.tracebuf))) ∧
      ¬ ∃ r r',
        (scanLoop .little (tankOf zFirst).length).Ends
            (scanInit (mapTank (tankOf zFirst) (fun _ => 0)))
            r ∧
          (scanLoop .little (tankOf nFirst).length).Ends
            (scanInit (mapTank (tankOf nFirst) (fun _ => 0)))
            r' ∧
          SameConversion .little 0 0 [] r r' := by
  refine ⟨zFirst_perm, zFirst_distinct, zFirst_near, ?_⟩
  rintro ⟨r, r', hEndsR, hEndsR', hSame⟩
  have hFew : Few zFirst := few_of_short (by decide)
  rcases conversions_of_few .little 0 0 [] (fun _ => 0)
      (fun _ => 0) (List.cons_ne_nil _ _) zFirst_perm
      zFirst_distinct zFirst_near hFew with
    ⟨r₁, r₁', hEnds, hEnds', hIff⟩
  obtain rfl := DoLoop.ends_unique hEndsR hEnds
  obtain rfl := DoLoop.ends_unique hEndsR' hEnds'
  have hBoth := hIff.mp hSame _ List.mem_cons_self
  exact zFirst_not_sameOrientation hBoth.2

end TankConvertor
