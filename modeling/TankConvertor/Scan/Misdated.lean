import TankConvertor.Scan.Resync

/-
  A tracebuf whose end time is wrong, inserted into a tank of
  well-formed ones: it is not stored, but a trace is looked
  up and made for it like for any other.

  Key definitions include:
    * `Misdated`
    * `SkippedWithoutTrace`

  Key theorems include:
    * `swapWavemsg2Makelocal_misdated`
    * `held_misdated`
    * `skipped_without_trace_iff`
-/

------------------------------------------------------------
-- Tracebufs With A Wrong End Time
------------------------------------------------------------

namespace TankConvertor

open Trace2Header ByteMem

/-
  A tracebuf that is well formed but for its end time, which
  is infinite or more than five sample intervals away from
  the time of the last sample.
-/
structure Misdated [Rounding] where
  pinno : UInt32
  starttime : UInt64
  endtime : UInt64
  samprate : UInt64
  sta : Code 7
  net : Code 9
  chan : Code 4
  loc : Code 3
  version0 : UInt8
  version1 : UInt8
  kind : SampleKind
  last : UInt32
  samples : List Nat
  starttime_finite :
    (ExtRat.ofBits64 starttime.toNat).IsFinite
  samprate_finite : (ExtRat.ofBits64 samprate.toNat).IsFinite
  samprate_pos : 0 < (ExtRat.ofBits64 samprate.toNat).toRat
  few : samples.length ≤ kind.capacity
  sample_lt : ∀ x ∈ samples, x < 256 ^ kind.width
  off :
    EndtimeOff samples.length
      (.ofBits64 starttime.toNat) (.ofBits64 endtime.toNat)
      (.ofBits64 samprate.toNat)

namespace Misdated

/- The last four bytes of the header, as in a tracebuf. -/
def lastBytes [Rounding] (o : ByteOrder) (t : Misdated) : List UInt8 :=
  if t.version0 = ch '2' ∧ t.version1 = ch '1' then
    o.bytes 4 t.last.toNat
  else
    leBytes 4 t.last.toNat

/- The header, its numbers in a given order. -/
def header [Rounding] (o : ByteOrder) (t : Misdated) : List UInt8 :=
  o.bytes 4 t.pinno.toNat ++
    (o.bytes 4 t.samples.length ++
      (o.bytes 8 t.starttime.toNat ++
        (o.bytes 8 t.endtime.toNat ++
          (o.bytes 8 t.samprate.toNat ++
            (t.sta.bytes ++
              (t.net.bytes ++
                (t.chan.bytes ++
                  (t.loc.bytes ++
                    ([t.version0, t.version1,
                      t.kind.letter o, t.kind.digit, 0] ++
                      t.lastBytes o)))))))))

/- The message, header and samples. -/
def encode [Rounding] (o : ByteOrder) (t : Misdated) : List UInt8 :=
  t.header o ++ t.samples.flatMap (o.bytes t.kind.width)

/- Bytes of the message. -/
def size [Rounding] (t : Misdated) : Nat :=
  sizeofTrace2Header + t.kind.width * t.samples.length

/- The bytes of the codes, and the key they make. -/
def bytes [Rounding] (t : Misdated) : CodeBytes :=
  (t.sta.bytes, t.chan.bytes, t.net.bytes,
    dashLoc t.loc.bytes)

def codes [Rounding] (t : Misdated) : Scnl :=
  strings t.bytes

theorem length_lastBytes
    [Rounding]
    (o : ByteOrder)
    (t : Misdated) :
    (t.lastBytes o).length = 4 := by
  unfold lastBytes
  split <;> simp

theorem length_header
    [Rounding]
    (o : ByteOrder)
    (t : Misdated) :
    (t.header o).length = 64 := by
  simp only [header, List.length_append,
    ByteOrder.length_bytes, t.sta.length_eq, t.net.length_eq,
    t.chan.length_eq, t.loc.length_eq, length_lastBytes,
    List.length_cons, List.length_nil]

@[simp] theorem length_encode
    [Rounding]
    (o : ByteOrder)
    (t : Misdated) :
    (t.encode o).length = t.size := by
  unfold encode size sizeofTrace2Header
  rw [List.length_append, length_header,
    ByteOrder.length_flatMap_bytes]

theorem size_pos
    [Rounding]
    (t : Misdated) :
    0 < t.size := by
  unfold size sizeofTrace2Header
  omega

theorem size_le
    [Rounding]
    (t : Misdated) :
    t.size ≤ maxTracebufSiz :=
  SampleKind.size_le t.few

/- What the scan reads of one in memory. -/
structure Holds
    [Rounding]
    (m : ByteMem)
    (p : Int)
    (o : ByteOrder)
    (t : Misdated) : Prop where
  nsamp : Trace2Header.nsamp o m p = t.samples.length
  starttime :
    Trace2Header.starttime o m p =
      .ofBits64 t.starttime.toNat
  endtime :
    Trace2Header.endtime o m p = .ofBits64 t.endtime.toNat
  samprate :
    Trace2Header.samprate o m p = .ofBits64 t.samprate.toNat
  sta : m.read (p + 32) 7 = t.sta.bytes
  net : m.read (p + 39) 9 = t.net.bytes
  chan : m.read (p + 48) 4 = t.chan.bytes
  loc : m.read (p + 52) 3 = t.loc.bytes
  letter : m (p + 57) = t.kind.letter o
  digit : m (p + 58) = t.kind.digit
  nul : m (p + 59) = 0

theorem length_samples_lt
    [Rounding]
    (t : Misdated) :
    t.samples.length < 2 ^ 31 := by
  have hFew := t.few
  have hCap := t.kind.capacity_le
  omega

theorem holds_of_encode
    [Rounding]
    {m : ByteMem}
    {p : Int}
    {o : ByteOrder}
    {t : Misdated}
    (h : m.HoldsAt p (t.encode o)) :
    t.Holds m p o := by
  have hLt := t.length_samples_lt
  unfold encode header at h
  simp only [holdsAt_append, holdsAt_cons, holdsAt_nil,
    ByteOrder.length_bytes, t.sta.length_eq, t.net.length_eq,
    t.chan.length_eq, t.loc.length_eq, List.length_cons,
    List.length_nil] at h
  simp only [HoldsAt, ByteOrder.length_bytes, t.sta.length_eq,
    t.net.length_eq, t.chan.length_eq, t.loc.length_eq,
    length_lastBytes, add_assoc] at h
  norm_num at h
  rcases h with ⟨⟨_, hNsamp, hStart, hEnd, hRate, hSta, hNet,
    hChan, hLoc, ⟨_, _, hLetter, hDigit, hNul⟩, _⟩, _⟩
  refine ⟨?_, ?_, ?_, ?_, hSta, hNet, hChan, hLoc, hLetter,
    hDigit, hNul⟩
  · unfold Trace2Header.nsamp
    rw [hNsamp, ByteOrder.value_bytes]
    · exact wrap32_of_mem (by omega) (by omega)
    · omega
  · unfold Trace2Header.starttime
    rw [hStart, ByteOrder.value_bytes]
    exact t.starttime.toNat_lt
  · unfold Trace2Header.endtime
    rw [hEnd, ByteOrder.value_bytes]
    exact t.endtime.toNat_lt
  · unfold Trace2Header.samprate
    rw [hRate, ByteOrder.value_bytes]
    exact t.samprate.toNat_lt

------------------------------------------------------------
-- The Routine Refuses It
------------------------------------------------------------

section Read

variable [Rounding]
variable {m : ByteMem} {p : Int} {host o : ByteOrder}
variable {t : Misdated}

theorem Holds.kindOf_eq
    (h : t.Holds m p o) :
    kindOf (datatype0 m p) (datatype1 m p) =
      some (o, t.kind) :=
  kindOf_datatype h.letter h.digit

theorem Holds.inconsistent
    (h : t.Holds m p o) :
    Inconsistent o m p := by
  unfold Inconsistent
  rw [h.nsamp, h.starttime, h.endtime, h.samprate]
  exact t.off

/- It is refused with its header in the host's order. -/
theorem swapWavemsg2Makelocal_misdated
    (host : ByteOrder)
    (h : t.Holds m p o) :
    swapWavemsg2Makelocal host m p =
      (-2,
        localHeader host o m p (Trace2Header.version0 m p)) := by
  have hFew : nsamp o m p ≤ t.kind.capacity := by
    rw [h.nsamp]
    exact_mod_cast t.few
  exact
    swapWavemsg2Makelocal_of_inconsistent host o m p h.kindOf_eq
      hFew h.inconsistent

theorem bytes_tkeyOf_localHeader
    (h : t.Holds m p o)
    (v : UInt8) :
    (tkeyOf (localHeader host o m p v) p).bytes = t.bytes := by
  have hRead (q : Int) (n : Nat)
      (hq : p + 32 ≤ q ∧ q + n ≤ p + 60) :
      (localHeader host o m p v).read q n = m.read q n := by
    apply read_congr
    intro i hLow hHigh
    exact localHeader_of_outside host o m p v (by omega)
  unfold TraceNode.bytes Misdated.bytes tkeyOf
  simp only [Trace2Header.sta, Trace2Header.chan,
    Trace2Header.net, Trace2Header.loc]
  rw [hRead (p + 32) 7 (by push_cast; omega),
    hRead (p + 39) 9 (by push_cast; omega),
    hRead (p + 48) 4 (by push_cast; omega),
    hRead (p + 52) 3 (by push_cast; omega),
    h.sta, h.net, h.chan, h.loc]

theorem datalen_localHeader
    (h : t.Holds m p o)
    (v : UInt8) :
    datalen host (localHeader host o m p v) p +
        sizeofTrace2Header = t.size := by
  have hAt (i : Int) (hi : p + 32 ≤ i ∧ i < p + 60) :
      localHeader host o m p v i = m i :=
    localHeader_of_outside host o m p v (by omega)
  have hWidth :
      bytePerSample (localHeader host o m p v) p =
        t.kind.width := by
    apply bytePerSample_of_digit
    · rw [hAt (p + 58) (by omega)]
      exact h.digit
    · rw [hAt (p + 59) (by omega)]
      exact h.nul
  unfold datalen size
  rw [hWidth, nsamp_localHeader, h.nsamp,
    SampleKind.wrap32_width_mul t.few]
  push_cast
  ring

end Read

end Misdated

------------------------------------------------------------
-- One Iteration
------------------------------------------------------------

/-
  The codes are looked up, and nothing is stored under them.
-/
theorem held_misdated
    [Rounding]
    {host o : ByteOrder}
    {seen : List CodeBytes}
    {placed : List (Int × Tracebuf)}
    {s : ScanState}
    {t : Misdated}
    (fsize : Nat)
    (h : Held host seen placed s)
    (hHolds : t.Holds s.mem s.tankbyte o) :
    ∃ s',
      scanBody host fsize s = .foot s' ∧
        Held host (seen ++ [t.bytes]) placed s' ∧
        s'.tankbyte = s.tankbyte + t.size ∧
        ∀ i, i < s.tankbyte ∨ s'.tankbyte ≤ i →
          s'.mem i = s.mem i := by
  let v := Trace2Header.version0 s.mem s.tankbyte
  have hSwap := Misdated.swapWavemsg2Makelocal_misdated host hHolds
  have hCode : swapCode host s = -2 := congrArg Prod.fst hSwap
  have hMem :
      swapMem host s =
        localHeader host o s.mem s.tankbyte v :=
    congrArg Prod.snd hSwap
  have hBytes :
      (tkeyOf (swapMem host s) s.tankbyte).bytes = t.bytes := by
    rw [hMem]
    exact Misdated.bytes_tkeyOf_localHeader hHolds v
  have hNext :
      datalen host (swapMem host s) s.tankbyte +
          sizeofTrace2Header = t.size := by
    rw [hMem]
    exact Misdated.datalen_localHeader hHolds v
  have hTkey : Coded (tkeyOf (swapMem host s) s.tankbyte) := by
    simp only [TraceNode.bytes, Misdated.bytes,
      Prod.mk.injEq] at hBytes
    rcases hBytes with ⟨hSta, hChan, hNet, _⟩
    exact ⟨hSta ▸ t.sta.nul_mem, hChan ▸ t.chan.nul_mem,
      hNet ▸ t.net.nul_mem⟩
  have hNot : ¬ Keeps (-2) (tbufAt host s) := by
    rintro ⟨hZero, _⟩
    cases hZero
  have hDone :
      reallocFailed
        (recordTbuf (-2) (tbufAt host s) (tnodeAt host s)) =
          false :=
    reallocFailed_of_not_keeps (h.ok.tnodeFor _ _) hNot
  have hFoot := foot_of_done fsize hCode (by decide) hDone
  have hCursor :
      (passMessage host (-2) (swapped host s)).tankbyte =
        s.tankbyte + t.size := by
    rw [← hNext]
    rfl
  have hOutside :
      ∀ i, i < s.tankbyte ∨ s.tankbyte + t.size ≤ i →
        swapMem host s i = s.mem i := by
    intro i hi
    have hHeader : 64 ≤ t.size := Nat.le_add_right 64 _
    rw [hMem]
    exact localHeader_of_outside host o s.mem s.tankbyte v
      (by omega)
  have hPos := t.size_pos
  refine ⟨_, hFoot, ⟨?_, ?_, ?_⟩, hCursor, ?_⟩
  · rw [← hBytes]
    apply (h.toShelved.swapped host).pass hTkey hDone
    · exact fun y hy => Or.inl hy
    · intro c
      rw [if_neg (fun hc => hNot hc.2), List.append_nil]
  · intro y hy
    have hBefore := h.before y hy
    rw [hCursor]
    omega
  · exact h.localized_swapMem
      (fun i hi => hOutside i (Or.inl hi))
  · intro i hi
    rw [hCursor] at hi
    exact hOutside i hi

------------------------------------------------------------
-- The Scan With And Without It
------------------------------------------------------------

/- The same entry, `d` bytes on if it lies behind `p`. -/
def TBuf.shiftFrom (p d : Int) (e : TBuf) : TBuf :=
  if e.offset < p then e else e.shift d

/-
  The scan `r` with `d` bytes inserted at `p` has the outcome
  of the scan `r'` without them: return value, keys in order,
  entries with later offsets shifted, and no trace is empty.
-/
structure SkippedWithoutTrace
    (p d : Int)
    (r r' : ScanResult) : Prop where
  ret : r.ret = r'.ret
  traces :
    r.traceList.map (fun n => (n.codes, n.stored)) =
      r'.traceList.map
        (fun n => (n.codes, n.stored.map (TBuf.shiftFrom p d)))
  stored : ∀ n ∈ r.traceList, 1 ≤ n.ntbuf

/- The tank with `t` inserted between `xs` and `ys`. -/
def tankWith
    [Rounding]
    (o : ByteOrder)
    (t : Misdated)
    (xs ys : List Message) :
    List UInt8 :=
  tankOf xs ++ (t.encode o ++ tankOf ys)

/- The tracebufs of that tank. -/
def layoutWith
    [Rounding]
    (t : Misdated)
    (xs ys : List Message) :
    List (Int × Tracebuf) :=
  layout 0 xs ++ layout ((tankOf xs).length + t.size) ys

theorem map_codes_layoutWith
    [Rounding]
    (t : Misdated)
    (xs ys : List Message) :
    (layoutWith t xs ys).map (fun x => x.2.codes) =
      keysOf (xs ++ ys) := by
  unfold layoutWith
  rw [List.map_append, map_codes_layout, map_codes_layout]
  unfold keysOf
  rw [List.map_append]

/- Its entries are those of the tank without `t`, shifted. -/
theorem entriesAt_layoutWith
    [Rounding]
    (t : Misdated)
    (c : Scnl)
    (xs ys : List Message) :
    entriesAt c (layoutWith t xs ys) =
      (entriesAt c (layout 0 (xs ++ ys))).map
        (TBuf.shiftFrom (tankOf xs).length t.size) := by
  have hFront :
      (entriesAt c (layout 0 xs)).map
          (TBuf.shiftFrom (tankOf xs).length t.size) =
        entriesAt c (layout 0 xs) := by
    refine (List.map_congr_left ?_).trans (List.map_id _)
    intro e he
    rcases List.mem_map.mp he with ⟨x, hx, rfl⟩
    have hBounds := end_le_of_mem_layout (List.mem_filter.mp hx).1
    have hPos : 0 < x.2.size := by
      unfold Tracebuf.size sizeofTrace2Header
      omega
    have hLt : (entryOf x).offset < (tankOf xs).length := by
      change x.1 < _
      omega
    exact if_pos hLt
  have hBack :
      (entriesAt c (layout (tankOf xs).length ys)).map
          (TBuf.shiftFrom (tankOf xs).length t.size) =
        entriesAt c
          (layout ((tankOf xs).length + t.size) ys) := by
    have hShift :
        (entriesAt c (layout (tankOf xs).length ys)).map
            (TBuf.shiftFrom (tankOf xs).length t.size) =
          (entriesAt c (layout (tankOf xs).length ys)).map
            (TBuf.shift t.size) := by
      apply List.map_congr_left
      intro e he
      rcases List.mem_map.mp he with ⟨x, hx, rfl⟩
      have hBounds :=
        end_le_of_mem_layout (List.mem_filter.mp hx).1
      have hGe : ¬ (entryOf x).offset < (tankOf xs).length := by
        change ¬ x.1 < _
        omega
      exact if_neg hGe
    rw [hShift, add_comm ((tankOf xs).length : Int)]
    unfold entriesAt
    rw [layout_eq_map, List.filter_map, List.map_map,
      List.map_map]
    rfl
  unfold layoutWith
  rw [layout_append, entriesAt_append, entriesAt_append,
    List.map_append, hFront, zero_add, hBack]

section Insert

variable [Rounding]
variable {host o : ByteOrder} {fsize : Nat}
variable {t : Misdated} {xs ys : List Message}
variable {s₀ : ScanState}

/- The loop comes to `t` behind `xs`, and passes it. -/
theorem foot_of_tankWith
    (host : ByteOrder)
    (hStart : StartsAt 0 s₀)
    (hTank : s₀.mem.HoldsAt 0 (tankWith o t xs ys))
    (hFsize : (fsize : Int) = (tankWith o t xs ys).length)
    (hFew : Few xs) :
    ∃ s s',
      (scanLoop host fsize).Head s₀ s ∧
        scanBody host fsize s = .foot s' ∧
        Held host (bytesOf xs ++ [t.bytes]) (layout 0 xs) s' ∧
        s'.tankbyte = (tankOf xs).length + t.size ∧
        s'.mem.HoldsAt s'.tankbyte (tankOf ys) := by
  have hCursor₀ := hStart.cursor
  have hPos := t.size_pos
  have hNe : t.encode o ++ tankOf ys ≠ [] := by
    intro hNil
    have hLength := congrArg List.length hNil
    rw [List.length_append, Misdated.length_encode] at hLength
    simp only [List.length_nil] at hLength
    omega
  have hHeld₀ := hStart.held_nil host
  rw [← hCursor₀] at hTank
  have hFsize' :
      (fsize : Int) =
        s₀.tankbyte +
          (tankOf xs ++ (t.encode o ++ tankOf ys)).length := by
    rw [hFsize, hCursor₀, zero_add]
    rfl
  rcases head_of_held host hHeld₀ hNe hTank hFsize'
      (few_iff_fewAt.mp hFew) with
    ⟨s, hHead, hHeld, hCursor, hSame⟩
  rw [hCursor₀] at hTank hHeld hCursor
  unfold tankWith at hTank
  rw [holdsAt_append, holdsAt_append, ← hCursor,
    Misdated.length_encode] at hTank
  have hHere : s.mem.HoldsAt s.tankbyte (t.encode o) := by
    refine (holdsAt_congr ?_).mpr hTank.2.1
    intro i hLow _
    exact hSame i (Or.inr hLow)
  rcases held_misdated fsize hHeld
      (Misdated.holds_of_encode hHere) with
    ⟨s', hFoot, hHeld', hCursor', hStep⟩
  refine ⟨s, s', hHead, hFoot, hHeld', ?_, ?_⟩
  · rw [hCursor', hCursor, zero_add]
  · rw [hCursor']
    refine (holdsAt_congr ?_).mpr hTank.2.2
    intro i hLow _
    rw [hStep i (Or.inr (by omega))]
    exact hSame i (Or.inr (by omega))

/- The loop goes on with `ys` if there are any. -/
theorem head_of_tankWith
    {s s' : ScanState}
    (hHead : (scanLoop host fsize).Head s₀ s)
    (hFoot : scanBody host fsize s = .foot s')
    (hFsize : (fsize : Int) = (tankWith o t xs ys).length)
    (hCursor : s'.tankbyte = (tankOf xs).length + t.size)
    (hYs : ys ≠ []) :
    (scanLoop host fsize).Head s₀ s' := by
  refine hHead.again hFoot ?_
  change decide (s'.tankbyte < (fsize : Int)) = true
  rw [decide_eq_true_iff, hCursor, hFsize]
  unfold tankWith
  rw [List.length_append, List.length_append,
    Misdated.length_encode]
  cases ys with
  | nil => exact (hYs rfl).elim
  | cons y ys =>
      have hPos := y.size_pos
      rw [tankOf_cons, List.length_append,
        Message.length_encode]
      omega

/- In the end `t` has left its codes behind. -/
theorem ends_of_tankWith
    (host : ByteOrder)
    (hStart : StartsAt 0 s₀)
    (hTank : s₀.mem.HoldsAt 0 (tankWith o t xs ys))
    (hFsize : (fsize : Int) = (tankWith o t xs ys).length)
    (hFew : Few (xs ++ ys)) :
    ∃ s,
      (scanLoop host fsize).Ends s₀ (scanFinish s) ∧
        Shelved (bytesOf xs ++ [t.bytes] ++ bytesOf ys)
          (layoutWith t xs ys) s := by
  have hFewXs : Few xs := by
    intro c
    have hAll := hFew c
    unfold keysOf at hAll ⊢
    rw [List.map_append, List.count_append] at hAll
    omega
  have hFewAll : FewAt (layoutWith t xs ys) := by
    intro c
    rw [map_codes_layoutWith]
    exact hFew c
  rcases foot_of_tankWith host hStart hTank hFsize hFewXs with
    ⟨s, s', hHead, hFoot, hHeld, hCursor, hRest⟩
  by_cases hYs : ys = []
  · subst hYs
    have hTest : (scanLoop host fsize).test s' = false := by
      change decide (s'.tankbyte < (fsize : Int)) = false
      rw [decide_eq_false_iff_not, hCursor, hFsize]
      simp [tankWith]
    refine ⟨s', DoLoop.ends_of_head hHead
      (DoLoop.ends_of_done hFoot hTest), ?_⟩
    have hShelved := hHeld.toShelved
    simpa [layoutWith, layout, bytesOf] using hShelved
  · have hHead' :=
      head_of_tankWith hHead hFoot hFsize hCursor hYs
    have hFsize' :
        (fsize : Int) = s'.tankbyte + (tankOf ys).length := by
      rw [hFsize, hCursor]
      unfold tankWith
      rw [List.length_append, List.length_append,
        Misdated.length_encode]
      push_cast
      ring
    have hFew' :
        FewAt (layout 0 xs ++ layout s'.tankbyte ys) := by
      rw [hCursor]
      exact hFewAll
    rcases ends_of_held host hHeld hYs hRest hFsize' hFew' with
      ⟨u, hEnds, hHeld', _⟩
    rw [hCursor] at hHeld'
    exact ⟨u, DoLoop.ends_of_head hHead' hEnds,
      hHeld'.toShelved⟩

/- Too many tracebufs of a key end this scan too. -/
theorem ends_of_tankWith_full
    (host : ByteOrder)
    (hStart : StartsAt 0 s₀)
    (hTank : s₀.mem.HoldsAt 0 (tankWith o t xs ys))
    (hFsize : (fsize : Int) = (tankWith o t xs ys).length)
    (hMany : ¬ Few (xs ++ ys)) :
    ∃ m, (scanLoop host fsize).Ends s₀ ⟨-1, m, []⟩ := by
  have hNone : FewAt [] := by
    intro c
    simp
  have hCursor₀ := hStart.cursor
  by_cases hFewXs : Few xs
  · rcases foot_of_tankWith host hStart hTank hFsize hFewXs with
      ⟨s, s', hHead, hFoot, hHeld, hCursor, hRest⟩
    have hManyAll : ¬ FewAt (layoutWith t xs ys) := by
      intro hFew
      apply hMany
      intro c
      rw [← map_codes_layoutWith t]
      exact hFew c
    have hYs : ys ≠ [] := by
      rintro rfl
      rw [List.append_nil] at hMany
      exact hMany hFewXs
    have hHead' :=
      head_of_tankWith hHead hFoot hFsize hCursor hYs
    have hFsize' :
        (fsize : Int) =
          s'.tankbyte + (tankOf ys ++ []).length := by
      rw [hFsize, hCursor, List.append_nil]
      unfold tankWith
      rw [List.length_append, List.length_append,
        Misdated.length_encode]
      push_cast
      ring
    have hMany' :
        ¬ FewAt (layout 0 xs ++ layout s'.tankbyte ys) := by
      rw [hCursor]
      exact hManyAll
    rw [← List.append_nil (tankOf ys)] at hRest
    have hFew : FewAt ([] ++ layout 0 xs) :=
      few_iff_fewAt.mp hFewXs
    rcases ends_of_overfull host hHeld hRest hFsize' hFew
        hMany' with
      ⟨m, hEnds⟩
    exact ⟨m, DoLoop.ends_of_head hHead' hEnds⟩
  · have hMany' : ¬ FewAt ([] ++ layout s₀.tankbyte xs) :=
      fun hFew => hFewXs (few_iff_fewAt.mpr hFew)
    rw [← hCursor₀] at hTank
    refine ends_of_overfull host (hStart.held_nil host) hTank
      ?_ hNone hMany'
    rw [hFsize, hCursor₀, zero_add]
    rfl

end Insert

------------------------------------------------------------
-- Skipped Without Trace
------------------------------------------------------------

section Skipped

variable [Rounding]
variable {t : Misdated} {xs ys : List Message}
variable {s s' : ScanState}

/- The keys looked up in the tank. -/
theorem mem_strings_bytesWith
    (t : Misdated)
    (xs ys : List Message)
    (c : Scnl) :
    c ∈ (bytesOf xs ++ [t.bytes] ++ bytesOf ys).map strings ↔
      c = t.codes ∨ c ∈ keysOf (xs ++ ys) := by
  rw [List.map_append, List.map_append, strings_bytesOf,
    strings_bytesOf]
  unfold keysOf
  simp only [List.map_append, List.mem_append, List.map_cons,
    List.map_nil, List.mem_singleton]
  unfold Misdated.codes
  tauto

/- A trace of its own would have nothing stored. -/
theorem mem_keysOf_of_skipped
    {r' : ScanResult}
    (h :
      Shelved (bytesOf xs ++ [t.bytes] ++ bytesOf ys)
        (layoutWith t xs ys) s)
    (hSkipped :
      SkippedWithoutTrace (tankOf xs).length t.size
        (scanFinish s) r') :
    t.codes ∈ keysOf (xs ++ ys) := by
  by_contra hNew
  rcases (h.mem_keys_iff t.codes).mp
      ((mem_strings_bytesWith t xs ys _).mpr (Or.inl rfl)) with
    ⟨n, hn, hCodes⟩
  have hStored :=
    hSkipped.stored (sortTlist n) (List.mem_map_of_mem hn)
  have hCount : n.ntbuf = 0 := by
    rw [h.ntbuf_eq hn, map_codes_layoutWith, hCodes]
    exact List.count_eq_zero.mpr hNew
  change 1 ≤ n.ntbuf at hStored
  omega

/- With a tracebuf of its key the traces are the same. -/
theorem skipped_of_mem_keysOf
    (h :
      Shelved (bytesOf xs ++ [t.bytes] ++ bytesOf ys)
        (layoutWith t xs ys) s)
    (h' : Shelved (bytesOf (xs ++ ys)) (layout 0 (xs ++ ys)) s')
    (hKey : t.codes ∈ keysOf (xs ++ ys)) :
    SkippedWithoutTrace (tankOf xs).length t.size
      (scanFinish s) (scanFinish s') := by
  have hSeen (c : Scnl) :
      c ∈ (bytesOf xs ++ [t.bytes] ++ bytesOf ys).map strings ↔
        c ∈ keysOf (xs ++ ys) := by
    rw [mem_strings_bytesWith]
    refine or_iff_right_of_imp ?_
    rintro rfl
    exact hKey
  have hCodes :
      s.root.twalk.map TraceNode.codes =
        s'.root.twalk.map TraceNode.codes := by
    apply codes_eq_of_shelved h h'
    intro c
    rw [hSeen, strings_bytesOf]
  have hTime (e : TBuf) :
      (e.shiftFrom (tankOf xs).length t.size).time = e.time := by
    unfold TBuf.shiftFrom
    split <;> rfl
  refine
    ⟨ret_eq_of_shelved h h' hCodes,
      traces_eq_of_shelved h h' hCodes hTime
        (fun c => entriesAt_layoutWith t c xs ys), ?_⟩
  intro n hn
  rcases List.mem_map.mp hn with ⟨v, hv, rfl⟩
  change 1 ≤ v.ntbuf
  rw [h.ntbuf_eq hv, map_codes_layoutWith]
  have hMem := (h.mem_keys_iff v.codes).mpr ⟨v, hv, rfl⟩
  exact List.one_le_count_iff.mpr ((hSeen v.codes).mp hMem)

end Skipped

/-
  A tracebuf with a wrong end time is skipped without trace
  exactly when there is a tracebuf of its key in the tank, or
  when the scan fails for too many tracebufs of one key.
-/
theorem skipped_without_trace_iff
    [Rounding]
    (host o : ByteOrder)
    (t : Misdated)
    (xs ys : List Message)
    (around around' : ByteMem) :
    (∃ r r',
      (scanLoop host (tankWith o t xs ys).length).Ends
          (scanInit (mapTank (tankWith o t xs ys) around)) r ∧
        (scanLoop host (tankOf (xs ++ ys)).length).Ends
          (scanInit (mapTank (tankOf (xs ++ ys)) around'))
          r' ∧
        SkippedWithoutTrace (tankOf xs).length t.size r r') ↔
      t.codes ∈ keysOf (xs ++ ys) ∨ ¬ Few (xs ++ ys) := by
  have hStart :
      StartsAt 0
        (scanInit (mapTank (tankWith o t xs ys) around)) :=
    ⟨rfl, rfl, rfl⟩
  have hStart' :
      StartsAt 0
        (scanInit (mapTank (tankOf (xs ++ ys)) around')) :=
    ⟨rfl, rfl, rfl⟩
  have hTank := holdsAt_mapTank (tankWith o t xs ys) around
  have hTank' := holdsAt_mapTank (tankOf (xs ++ ys)) around'
  by_cases hFew : Few (xs ++ ys)
  · rcases ends_of_tankWith host hStart hTank rfl hFew with
      ⟨s, hEnds, h⟩
    rw [or_iff_left (not_not.mpr hFew)]
    constructor
    · rintro ⟨r, r', hEndsR, -, hSkipped⟩
      obtain rfl := DoLoop.ends_unique hEndsR hEnds
      exact mem_keysOf_of_skipped h hSkipped
    · intro hKey
      have hNe : xs ++ ys ≠ [] := by
        intro hNil
        rw [hNil] at hKey
        cases hKey
      rcases ends_of_grouped host hStart' hNe hTank'
          (zero_add _).symm hFew with
        ⟨s', hEnds', hHeld', _⟩
      exact ⟨_, _, hEnds, hEnds',
        skipped_of_mem_keysOf h hHeld'.toShelved hKey⟩
  · refine iff_of_true ?_ (Or.inr hFew)
    rcases ends_of_tankWith_full host hStart hTank rfl hFew with
      ⟨m, hEnds⟩
    rcases ends_of_many host hStart' hTank' (zero_add _).symm
        hFew with
      ⟨m', hEnds'⟩
    refine ⟨_, _, hEnds, hEnds', rfl, rfl, ?_⟩
    intro n hn
    cases hn

attribute [local instance] Rounding.nearest

/- Station `X`, without samples; ends ten seconds too late. -/
def lateX : Misdated where
  pinno := 0
  starttime := 0
  endtime := 0x4024000000000000
  samprate := 0x3FF0000000000000
  sta := ⟨[ch 'X', 0, 0, 0, 0, 0, 0], rfl, by decide⟩
  net := Tracebuf.plain.net
  chan := Tracebuf.plain.chan
  loc := Tracebuf.plain.loc
  version0 := ch '2'
  version1 := ch '0'
  kind := .i4
  last := 0
  samples := []
  starttime_finite := Tracebuf.plain.starttime_finite
  samprate_finite := Tracebuf.plain.samprate_finite
  samprate_pos := Tracebuf.plain.samprate_pos
  few := Tracebuf.plain.few
  sample_lt := Tracebuf.plain.sample_lt
  off := by decide +kernel

/- Behind one tracebuf of another station: a second trace. -/
theorem lateX_leaves_trace :
    let xs : List Message := [⟨.little, .plain⟩]
    ¬ ∃ r r',
      (scanLoop .little
          (tankWith .little lateX xs []).length).Ends
          (scanInit
            (mapTank (tankWith .little lateX xs [])
              (fun _ => 0))) r ∧
        (scanLoop .little (tankOf (xs ++ [])).length).Ends
          (scanInit (mapTank (tankOf (xs ++ [])) (fun _ => 0)))
          r' ∧
        SkippedWithoutTrace (tankOf xs).length lateX.size
          r r' := by
  intro xs
  have hTwo :
      (scanTracebuf .little
        (tankWith .little lateX xs []).length 2
        (mapTank (tankWith .little lateX xs [])
          (fun _ => 0))).map ScanResult.ret = some 2 := by
    decide +kernel
  have hOne :
      (scanTracebuf .little (tankOf (xs ++ [])).length 1
        (mapTank (tankOf (xs ++ [])) (fun _ => 0))).map
          ScanResult.ret = some 1 := by
    decide +kernel
  rintro ⟨r, r', hEnds, hEnds', hSkipped⟩
  rcases Option.map_eq_some_iff.mp hTwo with ⟨q, hq, hRet⟩
  rcases Option.map_eq_some_iff.mp hOne with ⟨q', hq', hRet'⟩
  have hLeft := DoLoop.ends_unique hEnds ⟨2, hq⟩
  have hRight := DoLoop.ends_unique hEnds' ⟨1, hq'⟩
  have hSame := hSkipped.ret
  rw [hLeft, hRight, hRet, hRet'] at hSame
  cases hSame

end TankConvertor
