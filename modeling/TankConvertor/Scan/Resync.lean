import TankConvertor.Scan.Grouping

/-
  The scan of a tank behind bytes that are no message: what
  the failing probes leave behind, and when the tank is read
  as if it stood alone.

  Key definitions include:
    * `leftBy` and `probed`
    * `Undisturbed`
    * `SameScan`

  Key theorems include:
    * `head_of_undisturbed`
    * `sameScan_of_started`
    * `scan_resync`
-/

------------------------------------------------------------
-- Failing Probes
------------------------------------------------------------

namespace TankConvertor

open Trace2Header ByteMem

/- Unknown datatype, or more samples than fit a message. -/
def Refused (m : ByteMem) (p : Int) : Prop :=
  ∀ o k,
    kindOf (datatype0 m p) (datatype1 m p) = some (o, k) →
      (k.capacity : Int) < nsamp o m p

/-
  The memory after a refused probe: a header of the opposite
  order has been swapped in place and stays so.
-/
def leftBy
    (host : ByteOrder)
    (m : ByteMem)
    (p : Int) :
    ByteMem :=
  match kindOf (datatype0 m p) (datatype1 m p) with
  | none => m
  | some (o, _) => localHeader host o m p (version0 m p)

/- The memory after probes at the first `n` bytes. -/
def probed
    (host : ByteOrder)
    (m : ByteMem) :
    Nat → ByteMem
| 0 => m
| n + 1 => leftBy host (probed host m n) n

/- A refused probe returns -1 and leaves this memory. -/
theorem swapWavemsg2Makelocal_of_refused
    [Rounding]
    {host : ByteOrder}
    {m : ByteMem}
    {p : Int}
    (hRefused : Refused m p) :
    swapWavemsg2Makelocal host m p =
      (-1, leftBy host m p) := by
  unfold swapWavemsg2Makelocal leftBy
  cases hKind : kindOf (datatype0 m p) (datatype1 m p) with
  | none => exact makelocalWavemsgVer_of_unknown host m p _ hKind
  | some ok =>
      obtain ⟨o, k⟩ := ok
      rw [makelocalWavemsgVer_of_kind host o m p _ hKind,
        if_pos (hRefused o k hKind)]

/- The routine returns -1 for nothing else. -/
theorem refused_iff
    [Rounding]
    (host : ByteOrder)
    (m : ByteMem)
    (p : Int) :
    Refused m p ↔ (swapWavemsg2Makelocal host m p).1 = -1 := by
  constructor
  · intro hRefused
    rw [swapWavemsg2Makelocal_of_refused hRefused]
  · intro hRc o k hKind
    by_contra hFew
    exact
      (swapCode_ne_iff host m p).mpr
        ⟨o, k, hKind, not_lt.mp hFew⟩ hRc

/-
  Every probe of the first bytes is refused, on the memory
  that the probes before it have left, and together they
  leave the tank behind those bytes as it was.
-/
structure Undisturbed
    (host : ByteOrder)
    (m : ByteMem)
    (garbage tank : List UInt8) : Prop where
  refused :
    ∀ p : Nat, p < garbage.length →
      Refused (probed host m p) p
  intact :
    (probed host m garbage.length).HoldsAt garbage.length tank

/-
  Enough for that: no probe of the original bytes finds a
  datatype of the opposite order.
-/
theorem undisturbed_of_no_foreign
    {host : ByteOrder}
    {garbage tank : List UInt8}
    {around : ByteMem}
    (hRefused :
      ∀ p : Nat, p < garbage.length →
        Refused (mapTank (garbage ++ tank) around) p)
    (hLocal :
      ∀ (p : Nat) o k, p < garbage.length →
        kindOf
            (datatype0 (mapTank (garbage ++ tank) around) p)
            (datatype1 (mapTank (garbage ++ tank) around) p) =
          some (o, k) →
        o = host) :
    Undisturbed host (mapTank (garbage ++ tank) around)
      garbage tank := by
  have hSame :
      ∀ n : Nat, n ≤ garbage.length →
        probed host (mapTank (garbage ++ tank) around) n =
          mapTank (garbage ++ tank) around := by
    intro n hn
    induction n with
    | zero => rfl
    | succ n ih =>
        rw [probed, ih (by omega)]
        unfold leftBy
        split
        · rfl
        · rename_i o k hKind
          rw [hLocal n o k (by omega) hKind, localHeader_self]
  constructor
  · intro p hp
    rw [hSame p hp.le]
    exact hRefused p hp
  · rw [hSame _ (le_refl _)]
    have hAll :=
      holdsAt_mapTank (garbage ++ tank) around
    rw [holdsAt_append, zero_add] at hAll
    exact hAll.2

------------------------------------------------------------
-- Passing The Garbage
------------------------------------------------------------

/- The loop comes to the byte after the garbage. -/
theorem head_of_undisturbed
    [Rounding]
    (host : ByteOrder)
    {fsize : Nat}
    {m : ByteMem}
    {n : Nat}
    (hInside : n < fsize)
    (hRefused :
      ∀ p : Nat, p < n → Refused (probed host m p) p) :
    ∃ s,
      (scanLoop host fsize).Head (scanInit m) s ∧
        StartsAt n s ∧ s.mem = probed host m n := by
  induction n with
  | zero =>
      exact ⟨scanInit m, DoLoop.Head.entry, ⟨rfl, rfl, rfl⟩,
        rfl⟩
  | succ n ih =>
      rcases ih (by omega)
          (fun p hp => hRefused p (by omega)) with
        ⟨s, hHead, hStart, hMem⟩
      have hSwap :
          swapWavemsg2Makelocal host s.mem s.tankbyte =
            (-1, leftBy host (probed host m n) n) := by
        rw [hMem, hStart.cursor]
        exact swapWavemsg2Makelocal_of_refused
          (hRefused n (by omega))
      have hCode : swapCode host s = -1 := by
        rw [swapCode, hSwap]
      have hLt : s.tankbyte + 1 < fsize := by
        rw [hStart.cursor]
        omega
      have hFoot :
          scanBody host fsize s = .foot (shifted host s) := by
        rw [scanBody_eq, if_pos hCode, if_pos hLt]
      have hTest :
          (scanLoop host fsize).test (shifted host s) =
            true := by
        change decide (s.tankbyte + 1 < (fsize : Int)) = true
        rw [decide_eq_true_iff]
        exact hLt
      refine ⟨shifted host s, hHead.again hFoot hTest,
        ⟨?_, hStart.root, hStart.total⟩, ?_⟩
      · change s.tankbyte + 1 = _
        rw [hStart.cursor]
        push_cast
        rfl
      · change swapMem host s = _
        rw [swapMem, hSwap]
        rfl

------------------------------------------------------------
-- Two Scans Of One Tank
------------------------------------------------------------

/- The same entry for a tank that lies `d` bytes on. -/
def TBuf.shift (d : Int) (e : TBuf) : TBuf :=
  { e with offset := d + e.offset }

/-
  A scan with the tank `d` bytes on has the same outcome:
  return value, traces and entries, and bytes left.
-/
structure SameScan
    (d : Int)
    (tank : List UInt8)
    (r r' : ScanResult) : Prop where
  ret : r.ret = r'.ret
  traces :
    r.traceList.map (fun n => (n.codes, n.stored)) =
      r'.traceList.map
        (fun n => (n.codes, n.stored.map (TBuf.shift d)))
  bytes :
    ∀ i : Int, 0 ≤ i → i < tank.length →
      r.mem (d + i) = r'.mem i

theorem entriesOf_eq_map
    [Rounding]
    (d : Int)
    (c : Scnl)
    (xs : List Message) :
    entriesOf d c xs =
      (entriesOf 0 c xs).map (TBuf.shift d) := by
  unfold entriesOf
  have hLayout := layout_eq_map d 0 xs
  rw [add_zero] at hLayout
  rw [hLayout, List.filter_map, List.map_map, List.map_map]
  rfl

/- Sorting by time does not look at anything else. -/
theorem mergeSort_map_of_time
    {f : TBuf → TBuf}
    (hTime : ∀ e, (f e).time = e.time)
    (es : List TBuf) :
    (es.map f).mergeSort (fun a b => compareTime a b ≤ 0) =
      (es.mergeSort (fun a b => compareTime a b ≤ 0)).map
        f := by
  symm
  apply List.map_mergeSort
  intro a _ b _
  unfold compareTime
  rw [hTime a, hTime b]

/- A list of bytes held at two addresses reads the same. -/
theorem eq_of_holdsAt
    {m m' : ByteMem}
    {d : Int}
    {bs : List UInt8}
    (h : m.HoldsAt d bs)
    (h' : m'.HoldsAt 0 bs)
    {i : Int}
    (hLow : 0 ≤ i)
    (hHigh : i < bs.length) :
    m (d + i) = m' i := by
  have hRead : m.read d bs.length = m'.read 0 bs.length :=
    h.trans h'.symm
  obtain ⟨j, rfl⟩ := Int.eq_ofNat_of_zero_le hLow
  have hj : j < (m.read d bs.length).length := by
    rw [length_read]
    omega
  have hj' : j < (m'.read 0 bs.length).length := by
    rw [length_read]
    omega
  have hAt := getElem_read m d hj
  have hAt' := getElem_read m' 0 hj'
  rw [zero_add] at hAt'
  rw [← hAt, ← hAt']
  simp only [hRead]

/- Nodes that hold their terminators are ordered by codes. -/
theorem scnl_of_coded
    {n : TraceNode}
    (h : Coded n) :
    scnl n =
      toLex (n.codes.1.map UInt8.toNat,
        toLex (n.codes.2.1.map UInt8.toNat,
          toLex (n.codes.2.2.1.map UInt8.toNat,
            n.codes.2.2.2.map UInt8.toNat))) := by
  unfold scnl strKey TraceNode.codes TraceNode.fromSta
    TraceNode.fromChan TraceNode.fromNet TraceNode.fromLoc
  rw [cstr_append_of_mem h.sta, cstr_append_of_mem h.chan,
    cstr_append_of_mem h.net]

/- The order of the keys, on their strings. -/
def Scnl.order (c : Scnl) : ScnlKey :=
  toLex (c.1.map UInt8.toNat,
    toLex (c.2.1.map UInt8.toNat,
      toLex (c.2.2.1.map UInt8.toNat,
        c.2.2.2.map UInt8.toNat)))

section Shelved

variable [Rounding]
variable {seen seen' : List CodeBytes}
variable {placed placed' : List (Int × Tracebuf)}
variable {s s' : ScanState}

theorem Shelved.increasing
    (h : Shelved seen placed s) :
    (s.root.twalk.map TraceNode.codes).Pairwise
      (fun a b => a.order < b.order) := by
  rw [List.pairwise_map]
  refine h.ok.ordered.imp_of_mem ?_
  intro a b ha hb hLt
  rw [scnl_of_coded (h.coded a ha),
    scnl_of_coded (h.coded b hb)] at hLt
  exact hLt

/- Two trees with the same keys list them in one order. -/
theorem codes_eq_of_shelved
    (h : Shelved seen placed s)
    (h' : Shelved seen' placed' s')
    (hKeys :
      ∀ c, c ∈ seen.map strings ↔ c ∈ seen'.map strings) :
    s.root.twalk.map TraceNode.codes =
      s'.root.twalk.map TraceNode.codes := by
  have hPerm :
      (seen.map strings).dedup.Perm
        (seen'.map strings).dedup := by
    rw [List.perm_ext_iff_of_nodup (List.nodup_dedup _)
      (List.nodup_dedup _)]
    intro c
    rw [List.mem_dedup, List.mem_dedup]
    exact hKeys c
  refine List.Perm.eq_of_pairwise ?_ h.increasing
    h'.increasing ((h.keys.trans hPerm).trans h'.keys.symm)
  intro a b _ _ hab hba
  exact (lt_asymm hab hba).elim

/- Every node's sorted list, in terms of its codes. -/
theorem traces_of_shelved
    (h : Shelved seen placed s) :
    (scanFinish s).traceList.map
        (fun n => (n.codes, n.stored)) =
      (s.root.twalk.map TraceNode.codes).map
        (fun c =>
          (c, (entriesAt c placed).mergeSort
            (fun a b => compareTime a b ≤ 0))) := by
  change (s.root.twalk.map sortTlist).map _ = _
  rw [List.map_map, List.map_map]
  apply List.map_congr_left
  intro n hn
  change ((sortTlist n).codes, (sortTlist n).stored) =
    (n.codes, _)
  rw [stored_sortTlist (h.ok.nodes n hn), h.entries n hn]
  rfl

/- As many traces, if they are traces of the same keys. -/
theorem ret_eq_of_shelved
    (h : Shelved seen placed s)
    (h' : Shelved seen' placed' s')
    (hCodes :
      s.root.twalk.map TraceNode.codes =
        s'.root.twalk.map TraceNode.codes) :
    (scanFinish s).ret = (scanFinish s').ret := by
  change s.totaltrace = s'.totaltrace
  have hLength := congrArg List.length hCodes
  rw [List.length_map, List.length_map] at hLength
  rw [h.total, h'.total, hLength]

/- Entries that differ in their offsets sort the same way. -/
theorem traces_eq_of_shelved
    (h : Shelved seen placed s)
    (h' : Shelved seen' placed' s')
    (hCodes :
      s.root.twalk.map TraceNode.codes =
        s'.root.twalk.map TraceNode.codes)
    {f : TBuf → TBuf}
    (hTime : ∀ e, (f e).time = e.time)
    (hEntries :
      ∀ c, entriesAt c placed = (entriesAt c placed').map f) :
    (scanFinish s).traceList.map
        (fun n => (n.codes, n.stored)) =
      (scanFinish s').traceList.map
        (fun n => (n.codes, n.stored.map f)) := by
  have hMap :
      (scanFinish s').traceList.map
          (fun n => (n.codes, n.stored.map f)) =
        ((scanFinish s').traceList.map
          (fun n => (n.codes, n.stored))).map
            (fun x => (x.1, x.2.map f)) := by
    rw [List.map_map]
    rfl
  rw [hMap, traces_of_shelved h, traces_of_shelved h', hCodes,
    List.map_map, List.map_map, List.map_map]
  apply List.map_congr_left
  intro n _
  simp only [Function.comp_apply]
  rw [hEntries, mergeSort_map_of_time hTime]

end Shelved

section TwoScans

variable [Rounding]
variable {host : ByteOrder} {d : Int} {xs : List Message}

/- The first tracebuf that makes `2^31` of its key. -/
theorem exists_full_of_not_few
    (hMany : ¬ Few xs) :
    ∃ ys x zs,
      xs = ys ++ x :: zs ∧ Few ys ∧
        (keysOf ys).count x.tracebuf.codes + 1 = 2 ^ 31 := by
  have hNone : FewAt [] := by
    intro c
    simp
  have hMany' : ¬ FewAt ([] ++ layout 0 xs) := by
    rw [← few_iff_fewAt]
    exact hMany
  rcases exists_full_of_not_fewAt hNone hMany' with
    ⟨ys, x, zs, hSplit, hFew, hFull⟩
  rw [← few_iff_fewAt] at hFew
  rw [List.nil_append, map_codes_layout] at hFull
  exact ⟨ys, x, zs, hSplit, hFew, hFull⟩

/- Too many tracebufs of a key make the scan fail. -/
theorem ends_of_many
    (host : ByteOrder)
    {fsize : Nat}
    {base : Int}
    {s₀ : ScanState}
    (hStart : StartsAt base s₀)
    (hTank : s₀.mem.HoldsAt base (tankOf xs))
    (hFsize : (fsize : Int) = base + (tankOf xs).length)
    (hMany : ¬ Few xs) :
    ∃ m, (scanLoop host fsize).Ends s₀ ⟨-1, m, []⟩ := by
  rcases exists_full_of_not_few hMany with
    ⟨ys, x, zs, rfl, hYs, hFull⟩
  rcases ends_of_full host hStart hTank hFsize hYs hFull with
    ⟨m, hEnds, _⟩
  exact ⟨m, hEnds⟩

/-
  Two loops that come to the same tank, one `d` bytes on,
  end with the same outcome.
-/
theorem sameScan_of_started
    (host : ByteOrder)
    {fsize fsize' : Nat}
    {s₀ s₀' : ScanState}
    (hXs : xs ≠ [])
    (hStart : StartsAt d s₀)
    (hStart' : StartsAt 0 s₀')
    (hTank : s₀.mem.HoldsAt d (tankOf xs))
    (hTank' : s₀'.mem.HoldsAt 0 (tankOf xs))
    (hFsize : (fsize : Int) = d + (tankOf xs).length)
    (hFsize' : (fsize' : Int) = 0 + (tankOf xs).length) :
    ∃ r r',
      (scanLoop host fsize).Ends s₀ r ∧
        (scanLoop host fsize').Ends s₀' r' ∧
        SameScan d (tankOf xs) r r' := by
  by_cases hFew : Few xs
  · rcases ends_of_grouped host hStart hXs hTank hFsize hFew with
      ⟨s, hEnds, hHeld, h, _⟩
    rcases ends_of_grouped host hStart' hXs hTank' hFsize' hFew
      with ⟨s', hEnds', hHeld', h', _⟩
    have hCodes :=
      codes_eq_of_shelved hHeld.toShelved hHeld'.toShelved
        (fun _ => Iff.rfl)
    refine ⟨_, _, hEnds, hEnds', ?_, ?_, ?_⟩
    · exact
        ret_eq_of_shelved hHeld.toShelved hHeld'.toShelved hCodes
    · exact
        traces_eq_of_shelved hHeld.toShelved hHeld'.toShelved
          hCodes (fun _ => rfl)
          (fun c => entriesOf_eq_map d c xs)
    · intro i hLow hHigh
      have hHeld :=
        holdsAt_tankOf_inOrder_iff.mpr h.localized
      have hHeld' :=
        holdsAt_tankOf_inOrder_iff.mpr h'.localized
      refine eq_of_holdsAt hHeld hHeld' hLow ?_
      rw [length_tankOf_inOrder]
      exact hHigh
  · rcases exists_full_of_not_few hFew with
      ⟨ys, x, zs, rfl, hYs, hFull⟩
    rcases ends_of_full host hStart hTank hFsize hYs hFull with
      ⟨m, hEnds, hHeld⟩
    rcases ends_of_full host hStart' hTank' hFsize' hYs hFull
      with ⟨m', hEnds', hHeld'⟩
    refine ⟨_, _, hEnds, hEnds', rfl, rfl, ?_⟩
    intro i hLow hHigh
    refine eq_of_holdsAt hHeld hHeld' hLow ?_
    rw [tankOf_append, List.length_append,
      length_tankOf_inOrder, ← List.length_append,
      ← tankOf_append, List.append_assoc,
      List.singleton_append]
    exact hHigh

end TwoScans

------------------------------------------------------------
-- Resynchronisation
------------------------------------------------------------

/-
  Behind garbage whose probes leave the tank undisturbed the
  tank is scanned as it is alone.
-/
theorem scan_resync
    [Rounding]
    (host : ByteOrder)
    (garbage : List UInt8)
    (xs : List Message)
    (around around' : ByteMem)
    (hXs : xs ≠ [])
    (hUndisturbed :
      Undisturbed host
        (mapTank (garbage ++ tankOf xs) around)
        garbage (tankOf xs)) :
    ∃ r r',
      (scanLoop host (garbage ++ tankOf xs).length).Ends
          (scanInit (mapTank (garbage ++ tankOf xs) around))
          r ∧
        (scanLoop host (tankOf xs).length).Ends
          (scanInit (mapTank (tankOf xs) around')) r' ∧
        SameScan garbage.length (tankOf xs) r r' := by
  have hMore : 0 < (tankOf xs).length := by
    cases xs with
    | nil => exact (hXs rfl).elim
    | cons x xs =>
        have hPos := x.size_pos
        rw [tankOf_cons, List.length_append,
          Message.length_encode]
        omega
  have hLength :
      (garbage ++ tankOf xs).length =
        garbage.length + (tankOf xs).length :=
    List.length_append
  have hInside :
      garbage.length < (garbage ++ tankOf xs).length := by
    omega
  rcases head_of_undisturbed host hInside
      hUndisturbed.refused with
    ⟨s, hHead, hStart, hMem⟩
  have hTank : s.mem.HoldsAt garbage.length (tankOf xs) := by
    rw [hMem]
    exact hUndisturbed.intact
  have hStart' :
      StartsAt 0 (scanInit (mapTank (tankOf xs) around')) :=
    ⟨rfl, rfl, rfl⟩
  have hEnd :
      ((garbage ++ tankOf xs).length : Int) =
        garbage.length + (tankOf xs).length := by
    rw [hLength]
    push_cast
    rfl
  rcases sameScan_of_started host hXs hStart hStart' hTank
      (holdsAt_mapTank _ _) hEnd (zero_add _).symm with
    ⟨r, r', hEnds, hEnds', hSame⟩
  exact ⟨r, r', DoLoop.ends_of_head hHead hEnds, hEnds', hSame⟩

attribute [local instance] Rounding.nearest

/- One byte before a tracebuf. -/
theorem scan_resync_byte :
    ∃ r r',
      let xs : List Message := [⟨.big, .plain⟩]
      (scanLoop .little ([0] ++ tankOf xs).length).Ends
          (scanInit (mapTank ([0] ++ tankOf xs) (fun _ => 0)))
          r ∧
        (scanLoop .little (tankOf xs).length).Ends
          (scanInit (mapTank (tankOf xs) (fun _ => 0))) r' ∧
        SameScan 1 (tankOf xs) r r' := by
  refine scan_resync .little [0] [⟨.big, .plain⟩]
    (fun _ => 0) (fun _ => 0) (by simp) ?_
  apply undisturbed_of_no_foreign
  · intro p hp
    have hZero : p = 0 := by simpa using hp
    subst hZero
    rw [refused_iff .little]
    decide +kernel
  · intro p o k hp hKind
    have hZero : p = 0 := by simpa using hp
    subst hZero
    have hNone :
        kindOf
            (datatype0
              (mapTank ([0] ++ tankOf [⟨.big, .plain⟩])
                (fun _ => 0)) (0 : Nat))
            (datatype1
              (mapTank ([0] ++ tankOf [⟨.big, .plain⟩])
                (fun _ => 0)) (0 : Nat)) = none := by
      decide +kernel
    rw [hNone] at hKind
    cases hKind

------------------------------------------------------------
-- A Tracebuf That Is Lost
------------------------------------------------------------

/- A tracebuf of the station `s4`. -/
def stationS4 [Rounding] : Tracebuf :=
  { Tracebuf.plain with
    sta :=
      ⟨[ch 's', ch '4', 0, 0, 0, 0, 0], rfl, by decide⟩ }

/-
  25 bytes before it: the first probe takes the station for a
  datatype, finds too many samples, and leaves the first
  bytes of the tracebuf reversed.
-/
def lostTank : List UInt8 :=
  List.replicate 25 0x7F

/- The probes are refused, and yet the tracebuf is not found. -/
theorem lostTank_not_resync :
    let xs : List Message := [⟨.little, stationS4⟩]
    let m := mapTank (lostTank ++ tankOf xs) (fun _ => 0)
    (∀ p : Nat, p < lostTank.length →
      (swapWavemsg2Makelocal .little m p).1 = -1) ∧
    ¬ ∃ r r',
      (scanLoop .little (lostTank ++ tankOf xs).length).Ends
          (scanInit m) r ∧
        (scanLoop .little (tankOf xs).length).Ends
          (scanInit (mapTank (tankOf xs) (fun _ => 0))) r' ∧
        SameScan lostTank.length (tankOf xs) r r' := by
  intro xs m
  have hProbes :
      ∀ p : Nat, p < lostTank.length →
        (swapWavemsg2Makelocal .little m p).1 = -1 := by
    decide +kernel
  have hNone :
      (scanTracebuf .little (lostTank ++ tankOf xs).length 89
        m).map ScanResult.ret = some 0 := by
    decide +kernel
  have hOne :
      (scanTracebuf .little (tankOf xs).length 1
        (mapTank (tankOf xs) (fun _ => 0))).map
          ScanResult.ret = some 1 := by
    decide +kernel
  refine ⟨hProbes, ?_⟩
  rintro ⟨r, r', hEnds, hEnds', hSame⟩
  rcases Option.map_eq_some_iff.mp hNone with ⟨q, hq, hZero⟩
  rcases Option.map_eq_some_iff.mp hOne with ⟨q', hq', hRet⟩
  have hLeft := DoLoop.ends_unique hEnds ⟨89, hq⟩
  have hRight := DoLoop.ends_unique hEnds' ⟨1, hq'⟩
  have hSameRet := hSame.ret
  rw [hLeft, hRight, hZero, hRet] at hSameRet
  cases hSameRet

end TankConvertor
