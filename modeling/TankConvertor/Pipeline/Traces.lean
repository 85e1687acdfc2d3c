import TankConvertor.Mseed.Agreement
import TankConvertor.Sac.Dependence
import TankConvertor.Sac.Extent
import TankConvertor.Scan.Resync

/-
  The traces that the scan of a tank hands to the converters,
  in terms of the tracebufs of the tank.

  Key definitions include:
    * `Tracebuf.time`
    * `sortedTracebufs`
    * `DistinctEnds`
    * `sortedSpans` and `ShortTrace`
    * `SameOrientation`

  Key theorems include:
    * `packets_of_held`
    * `component_of_held`
    * `sortedTracebufs_perm`
-/

------------------------------------------------------------
-- Tracebufs In The Order Of Their End Times
------------------------------------------------------------

namespace TankConvertor

/- The end time, as the scan reads it. -/
def Tracebuf.time [Rounding] (t : Tracebuf) : ExtRat :=
  .ofBits64 t.endtime.toNat

/- No later, as `compare_time` has it. -/
def Tracebuf.noLater [Rounding] (a b : Tracebuf) : Bool :=
  compareTime (entryOf (0, a)) (entryOf (0, b)) ≤ 0

theorem Tracebuf.noLater_iff
    [Rounding]
    (a b : Tracebuf) :
    a.noLater b = true ↔ a.time.toRat ≤ b.time.toRat := by
  unfold noLater
  rw [decide_eq_true_iff,
    compareTime_le_zero_iff a.endtime_finite b.endtime_finite]
  rfl

/- The tracebufs of a key, as they are sorted. -/
def sortedTracebufs
    [Rounding]
    (c : Scnl)
    (ts : List Tracebuf) :
    List Tracebuf :=
  (ts.filter (fun t => t.codes = c)).mergeSort Tracebuf.noLater

theorem mem_sortedTracebufs
    [Rounding]
    {c : Scnl}
    {ts : List Tracebuf}
    {t : Tracebuf} :
    t ∈ sortedTracebufs c ts ↔ t ∈ ts ∧ t.codes = c := by
  unfold sortedTracebufs
  rw [List.mem_mergeSort, List.mem_filter, decide_eq_true_iff]

theorem sortedTracebufs_pairwise
    [Rounding]
    (c : Scnl)
    (ts : List Tracebuf) :
    (sortedTracebufs c ts).Pairwise
      (fun a b => a.time.toRat ≤ b.time.toRat) := by
  have hTrans :
      ∀ a b d : Tracebuf,
        a.noLater b = true → b.noLater d = true →
          a.noLater d = true := by
    intro a b d hab hbd
    rw [Tracebuf.noLater_iff] at hab hbd ⊢
    exact hab.trans hbd
  have hTotal :
      ∀ a b : Tracebuf,
        (a.noLater b || b.noLater a) = true := by
    intro a b
    rw [Bool.or_eq_true, Tracebuf.noLater_iff,
      Tracebuf.noLater_iff]
    exact le_total _ _
  have hSorted :=
    List.pairwise_mergeSort hTrans hTotal
      (ts.filter (fun t => t.codes = c))
  exact hSorted.imp (fun h => (Tracebuf.noLater_iff _ _).mp h)

/- Tracebufs of one key end at different times. -/
def DistinctEnds [Rounding] (ts : List Tracebuf) : Prop :=
  ts.Pairwise
    (fun a b => a.codes = b.codes → a.time.toRat ≠ b.time.toRat)

theorem DistinctEnds.perm
    [Rounding]
    {ts us : List Tracebuf}
    (h : DistinctEnds ts)
    (hPerm : ts.Perm us) :
    DistinctEnds us :=
  List.Pairwise.perm h hPerm
    (fun hNe hCodes => (hNe hCodes.symm).symm)

theorem DistinctEnds.sorted_lt
    [Rounding]
    {ts : List Tracebuf}
    (h : DistinctEnds ts)
    (c : Scnl) :
    (sortedTracebufs c ts).Pairwise
      (fun a b => a.time.toRat < b.time.toRat) := by
  have hApart :
      (sortedTracebufs c ts).Pairwise
        (fun a b => a.codes = b.codes →
          a.time.toRat ≠ b.time.toRat) :=
    (h.filter _).perm (List.mergeSort_perm _ _).symm
      (fun hNe hCodes => (hNe hCodes.symm).symm)
  have hBoth := (sortedTracebufs_pairwise c ts).and hApart
  refine hBoth.imp_of_mem ?_
  intro a b ha hb hab
  have hCodes : a.codes = b.codes := by
    rw [(mem_sortedTracebufs.mp ha).2,
      (mem_sortedTracebufs.mp hb).2]
  exact lt_of_le_of_ne hab.1 (hab.2 hCodes)

/- Then they can be sorted in one way only. -/
theorem sortedTracebufs_perm
    [Rounding]
    {c : Scnl}
    {ts us : List Tracebuf}
    (hPerm : ts.Perm us)
    (hDistinct : DistinctEnds ts) :
    sortedTracebufs c ts = sortedTracebufs c us := by
  have hSame :
      (sortedTracebufs c ts).Perm (sortedTracebufs c us) :=
    ((List.mergeSort_perm _ _).trans (hPerm.filter _)).trans
      (List.mergeSort_perm _ _).symm
  refine List.Perm.eq_of_pairwise ?_ (hDistinct.sorted_lt c)
    ((hDistinct.perm hPerm).sorted_lt c) hSame
  intro a b _ _ hab hba
  exact (lt_asymm hab hba).elim

------------------------------------------------------------
-- The Packets Of A Trace
------------------------------------------------------------

section Held

variable [Rounding]
variable {host : ByteOrder}
variable {seen : List CodeBytes}
variable {placed : List (Int × Tracebuf)}
variable {s : ScanState} {v : TraceNode}

/-
  A trace's packets have the data of its key's tracebufs, in
  the order of the end times.
-/
theorem packets_of_held
    (h : Held host seen placed s)
    (hv : v ∈ s.root.twalk) :
    List.Forall₂ Packet.SameData
        ((sortTlist v).packets host s.mem)
        ((sortedTracebufs v.codes (placed.map Prod.snd)).map
          (Tracebuf.packet host)) ∧
      ∀ p ∈ (sortTlist v).packets host s.mem,
        p.IsWellFormed := by
  let le (x y : Int × Tracebuf) : Bool := x.2.noLater y.2
  let sorted :=
    (placed.filter (fun x => x.2.codes = v.codes)).mergeSort le
  have hStored : (sortTlist v).stored = sorted.map entryOf := by
    rw [stored_sortTlist (h.ok.nodes v hv), h.entries v hv]
    unfold entriesAt
    symm
    apply List.map_mergeSort
    intro x _ y _
    rfl
  have hTracebufs :
      sortedTracebufs v.codes (placed.map Prod.snd) =
        sorted.map Prod.snd := by
    unfold sortedTracebufs
    rw [List.filter_map]
    symm
    apply List.map_mergeSort
    intro x _ y _
    rfl
  have hHolds : ∀ x ∈ sorted, x.2.Holds s.mem x.1 host := by
    intro x hx
    rw [List.mem_mergeSort] at hx
    exact h.localized x (List.mem_filter.mp hx).1
  unfold TraceNode.packets
  rw [hStored, hTracebufs, List.map_map, List.map_map]
  constructor
  · rw [List.forall₂_map_left_iff, List.forall₂_map_right_iff,
      List.forall₂_same]
    intro x hx
    exact sameData_packet (hHolds x hx)
  · intro p hp
    rcases List.mem_map.mp hp with ⟨x, hx, rfl⟩
    exact ⟨_, _, wellFormed_of_holds (hHolds x hx)⟩

end Held

------------------------------------------------------------
-- The Spans Of A Trace
------------------------------------------------------------

/- The times, the rate and the number of the samples. -/
def Tracebuf.span [Rounding] (t : Tracebuf) : Span where
  start := .ofBits64 t.starttime.toNat
  stop := t.time
  rate := .ofBits64 t.samprate.toNat
  count := t.samples.length

theorem Tracebuf.spans_packet
    [Rounding]
    (host : ByteOrder)
    (t : Tracebuf) :
    (t.packet host).Spans t.span :=
  have hHolds := holds_alone host t
  ⟨⟨_, _, packet_wellFormed host t⟩, hHolds.starttime_eq,
    hHolds.endtime_eq, hHolds.samprate_eq, hHolds.nsamp_eq⟩

/- The spans of a key, in the order of the end times. -/
def sortedSpans
    [Rounding]
    (c : Scnl)
    (ts : List Tracebuf) :
    List Span :=
  (sortedTracebufs c ts).map Tracebuf.span

/- An `int` can count the words that the key's trace takes. -/
def ShortTrace
    [Rounding]
    (c : Scnl)
    (ts : List Tracebuf) : Prop :=
  (Extent.ofSpans (sortedSpans c ts)).words < 2 ^ 31

theorem spans_sortedTracebufs
    [Rounding]
    (host : ByteOrder)
    (c : Scnl)
    (ts : List Tracebuf) :
    List.Forall₂ Packet.Spans
      ((sortedTracebufs c ts).map (Tracebuf.packet host))
      (sortedSpans c ts) := by
  unfold sortedSpans
  rw [List.forall₂_map_left_iff, List.forall₂_map_right_iff,
    List.forall₂_same]
  intro t _
  exact t.spans_packet host

------------------------------------------------------------
-- The Component
------------------------------------------------------------

/- The byte that `tnode->chan[2]` reads in a trace made for it. -/
def Tracebuf.component [Rounding] (t : Tracebuf) : UInt8 :=
  t.chan.bytes.getD 2 0

/-
  The tracebufs of the key that come first in either tank
  name the same orientation in the channel's third byte.
-/
def SameOrientation
    [Rounding]
    (xs ys : List Message)
    (c : Scnl) : Prop :=
  ∀ x ∈ xs.find? (fun x => x.tracebuf.codes = c),
    ∀ y ∈ ys.find? (fun y => y.tracebuf.codes = c),
      orientation x.tracebuf.component =
        orientation y.tracebuf.component

/- A trace has the bytes of the first tracebuf of its key. -/
theorem component_of_held
    [Rounding]
    {host : ByteOrder}
    {placed : List (Int × Tracebuf)}
    {xs : List Message}
    {s : ScanState}
    {v : TraceNode}
    (h : Held host (bytesOf xs) placed s)
    (hv : v ∈ s.root.twalk) :
    ∃ x ∈ xs.find? (fun x => x.tracebuf.codes = v.codes),
      v.component = x.tracebuf.component := by
  have hFirst := h.first v hv
  unfold bytesOf at hFirst
  rw [List.find?_map] at hFirst
  rcases Option.map_eq_some_iff.mp hFirst with ⟨x, hx, hBytes⟩
  refine ⟨x, ?_, ?_⟩
  · rw [Option.mem_def, ← hx]
    congr 1
    funext y
    simp only [Function.comp_apply, y.tracebuf.strings_bytes]
  · have hChan : x.tracebuf.chan.bytes = v.chan :=
      congrArg (fun b => b.2.1) hBytes
    unfold TraceNode.component Tracebuf.component
    rw [hChan]

/- So two traces of a key agree when the first tracebufs do. -/
theorem sameOrientation_iff
    [Rounding]
    {host : ByteOrder}
    {placed placed' : List (Int × Tracebuf)}
    {xs ys : List Message}
    {s s' : ScanState}
    {v v' : TraceNode}
    (h : Held host (bytesOf xs) placed s)
    (h' : Held host (bytesOf ys) placed' s')
    (hv : v ∈ s.root.twalk)
    (hv' : v' ∈ s'.root.twalk)
    (hCodes : v.codes = v'.codes) :
    SameOrientation xs ys v.codes ↔
      orientation v.component = orientation v'.component := by
  rcases component_of_held h hv with ⟨x, hx, hComponent⟩
  rcases component_of_held h' hv' with ⟨y, hy, hComponent'⟩
  rw [← hCodes] at hy
  rw [hComponent, hComponent']
  constructor
  · intro hSame
    exact hSame x hx y hy
  · intro hSame x₁ hx₁ y₁ hy₁
    obtain rfl := Option.mem_unique hx hx₁
    obtain rfl := Option.mem_unique hy hy₁
    exact hSame

end TankConvertor
