import TankConvertor.Scan.Held

/-
  The scan of a tank of well-formed tracebufs: one node for
  each key, and in it the entries of that key's tracebufs.

  Key definitions include:
    * `GroupedTo`
    * `Grouped`

  Key theorems include:
    * `Held.groupedTo`
    * `ends_of_grouped` and `ends_of_full`
    * `scan_grouped`
-/

------------------------------------------------------------
-- What Has Been Grouped
------------------------------------------------------------

namespace TankConvertor

open Trace2Header ByteMem

/- The loop has passed the messages `xs` that begin at `base`. -/
structure GroupedTo
    [Rounding]
    (host : ByteOrder)
    (base : Int)
    (xs : List Message)
    (s : ScanState) : Prop where
  ok : ScanOk s
  coded : ∀ n ∈ s.root.twalk, Coded n
  cursor : s.tankbyte = base + (tankOf xs).length
  total : s.totaltrace = wrap32 s.root.twalk.length
  keys :
    (s.root.twalk.map TraceNode.codes).Perm (keysOf xs).dedup
  entries :
    ∀ n ∈ s.root.twalk, n.stored = entriesOf base n.codes xs
  localized :
    ∀ x ∈ layout base xs, x.2.Holds s.mem x.1 host

theorem Held.groupedTo
    [Rounding]
    {host : ByteOrder}
    {base : Int}
    {xs : List Message}
    {s : ScanState}
    (h : Held host (bytesOf xs) (layout base xs) s)
    (hCursor : s.tankbyte = base + (tankOf xs).length) :
    GroupedTo host base xs s where
  ok := h.ok
  coded := h.coded
  cursor := hCursor
  total := h.total
  keys := by
    have hKeys := h.keys
    rw [strings_bytesOf] at hKeys
    exact hKeys
  entries := h.entries
  localized := h.localized

------------------------------------------------------------
-- Whole Tanks
------------------------------------------------------------

/- No key has as many tracebufs as its list cannot count. -/
def Few [Rounding] (xs : List Message) : Prop :=
  ∀ c, (keysOf xs).count c < 2 ^ 31

theorem few_iff_fewAt
    [Rounding]
    {base : Int}
    {xs : List Message} :
    Few xs ↔ FewAt ([] ++ layout base xs) := by
  unfold Few FewAt
  rw [List.nil_append, map_codes_layout]

/- The loop comes to a tank at `base` with nothing stored. -/
structure StartsAt
    (base : Int)
    (s₀ : ScanState) : Prop where
  cursor : s₀.tankbyte = base
  root : s₀.root = .leaf
  total : s₀.totaltrace = 0

theorem StartsAt.held_nil
    [Rounding]
    {base : Int}
    {s₀ : ScanState}
    (h : StartsAt base s₀)
    (host : ByteOrder) :
    Held host [] [] s₀ where
  ok := by
    constructor
    · rw [h.root]
      simp [SearchTree.Ordered, SearchTree.twalk]
    · rw [h.root]
      simp [SearchTree.twalk]
  coded := by simp [h.root, SearchTree.twalk]
  total := by
    rw [h.root, h.total]
    rfl
  keys := by simp [h.root, SearchTree.twalk]
  first := by simp [h.root, SearchTree.twalk]
  within := by simp
  entries := by simp [h.root, SearchTree.twalk]
  tight := by simp [h.root, SearchTree.twalk]
  before := by simp
  localized := by simp

section Run

variable [Rounding]
variable {host : ByteOrder} {base : Int} {fsize : Nat}
variable {s₀ : ScanState} {xs ys : List Message} {x : Message}

/- The loop ends with the whole tank grouped. -/
theorem ends_of_grouped
    (host : ByteOrder)
    (hStart : StartsAt base s₀)
    (hXs : xs ≠ [])
    (hTank : s₀.mem.HoldsAt base (tankOf xs))
    (hFsize : (fsize : Int) = base + (tankOf xs).length)
    (hFew : Few xs) :
    ∃ s,
      (scanLoop host fsize).Ends s₀ (scanFinish s) ∧
        Held host (bytesOf xs) (layout base xs) s ∧
        GroupedTo host base xs s ∧
        ∀ i, i < base ∨ (fsize : Int) ≤ i →
          s.mem i = s₀.mem i := by
  have hCursor := hStart.cursor
  subst hCursor
  rcases ends_of_held host (hStart.held_nil host) hXs hTank
      hFsize (few_iff_fewAt.mp hFew) with
    ⟨s, hEnds, hHeld, hEnd, hSame⟩
  refine ⟨s, hEnds, hHeld, hHeld.groupedTo ?_, hSame⟩
  rw [hEnd, hFsize]

/-
  The tracebuf that makes `2^31` of a key ends the scan; the
  tank is in the host's order up to it.
-/
theorem ends_of_full
    (host : ByteOrder)
    (hStart : StartsAt base s₀)
    (hTank : s₀.mem.HoldsAt base (tankOf (xs ++ x :: ys)))
    (hFsize :
      (fsize : Int) = base + (tankOf (xs ++ x :: ys)).length)
    (hFew : Few xs)
    (hFull :
      (keysOf xs).count x.tracebuf.codes + 1 = 2 ^ 31) :
    ∃ m,
      (scanLoop host fsize).Ends s₀ ⟨-1, m, []⟩ ∧
        m.HoldsAt base
          (tankOf
            ((xs ++ [x]).map (Message.inOrder host) ++ ys)) := by
  have hBase := hStart.cursor
  subst hBase
  have hPos := x.size_pos
  have hSplit :
      tankOf (xs ++ x :: ys) =
        tankOf xs ++ (x.encode ++ tankOf ys) := by
    rw [tankOf_append, tankOf_cons]
  have hNe := x.encode_append_ne_nil (tankOf ys)
  rw [hSplit] at hTank hFsize
  rcases head_of_held host (hStart.held_nil host) hNe hTank
      hFsize (few_iff_fewAt.mp hFew) with
    ⟨s, hHead, hHeld, hCursor, hSame⟩
  have hHolds : x.tracebuf.Holds s.mem s.tankbyte x.order :=
    holds_next hTank hCursor
      (fun i hi => hSame i (Or.inr hi))
  rcases swapWavemsg2Makelocal_encode host hHolds with
    ⟨_, hLocal, hOutside⟩
  change x.tracebuf.Holds (swapMem host s) s.tankbyte host
    at hLocal
  have hLeave :
      scanBody host fsize s =
        .leave ⟨-1, swapMem host s, []⟩ := by
    apply leave_of_full fsize hHeld hHolds
    rw [List.nil_append, map_codes_layout]
    exact hFull
  refine ⟨swapMem host s, DoLoop.ends_of_head hHead
    (DoLoop.ends_of_leave hLeave), ?_⟩
  rw [tankOf_append, holdsAt_append,
    length_tankOf_inOrder, List.map_append, tankOf_append,
    holdsAt_append, length_tankOf_inOrder, ← hCursor]
  refine ⟨⟨?_, ?_⟩, ?_⟩
  · rw [holdsAt_tankOf_inOrder_iff]
    intro y hy
    have hBounds := end_le_of_mem_layout hy
    refine (hHeld.localized y hy).congr ?_
    intro i _ hHigh
    exact hOutside i (by left; omega)
  · rw [List.map_cons, List.map_nil, tankOf_cons,
      tankOf_nil, List.append_nil]
    exact Tracebuf.holdsAt_encode_iff.mpr hLocal
  · rw [← hSplit, ← List.singleton_append,
      ← List.append_assoc, tankOf_append, holdsAt_append]
      at hTank
    refine (holdsAt_congr ?_).mpr hTank.2
    intro i hLow _
    rw [length_tankOf_snoc] at hLow
    push_cast at hLow
    have hPast : s.tankbyte + x.size ≤ i := by omega
    change swapMem host s i = s₀.mem i
    rw [← hSame i (by right; omega)]
    exact hOutside i (Or.inr hPast)

end Run

------------------------------------------------------------
-- The List Of Traces
------------------------------------------------------------

/- Every time is a finite number. -/
def FiniteTimes (es : List TBuf) : Prop :=
  ∀ e ∈ es, e.time.IsFinite

theorem finiteTimes_entriesOf
    [Rounding]
    (base : Int)
    (c : Scnl)
    (xs : List Message) :
    FiniteTimes (entriesOf base c xs) := by
  intro e he
  unfold entriesOf at he
  rcases List.mem_map.mp he with ⟨x, _, rfl⟩
  exact x.2.endtime_finite

/- On finite times the comparison is that of the numbers. -/
theorem compareTime_le_zero_iff
    {a b : TBuf}
    (ha : a.time.IsFinite)
    (hb : b.time.IsFinite) :
    compareTime a b ≤ 0 ↔ a.time.toRat ≤ b.time.toRat := by
  have hLe :
      a.time.toRat ≤ b.time.toRat ↔ ¬ b.time < a.time := by
    rw [ExtRat.lt_iff_of_finite hb ha, not_lt]
  rw [hLe]
  unfold compareTime
  by_cases hLt : b.time < a.time
  · simp [hLt]
  · rw [if_neg hLt]
    split <;> simp [hLt]

/- Sorting finite times by the comparison orders them. -/
theorem sorted_mergeSort
    {es : List TBuf}
    (hFinite : FiniteTimes es) :
    (es.mergeSort (fun a b => compareTime a b ≤ 0)).Pairwise
      (fun a b => a.time.toRat ≤ b.time.toRat) := by
  let le (a b : TBuf) : Bool := a.time.toRat ≤ b.time.toRat
  have hSame :
      es.mergeSort (fun a b => compareTime a b ≤ 0) =
        es.mergeSort le := by
    have hMap :=
      List.map_mergeSort (f := id) (l := es)
        (r := fun a b => decide (compareTime a b ≤ 0))
        (s := le) (by
          intro a ha b hb
          rw [Bool.eq_iff_iff, decide_eq_true_iff]
          rw [compareTime_le_zero_iff (hFinite a ha)
            (hFinite b hb)]
          exact decide_eq_true_iff.symm)
    simpa using hMap
  rw [hSame]
  have hPairs :=
    List.pairwise_mergeSort
      (by
        intro (a : TBuf) b c (hab : le a b) (hbc : le b c)
        simp only [le, decide_eq_true_iff] at hab hbc ⊢
        exact hab.trans hbc)
      (by
        intro (a : TBuf) b
        simp only [le, Bool.or_eq_true, decide_eq_true_iff]
        exact le_total _ _)
      es
  exact hPairs.imp (fun h => decide_eq_true_iff.mp h)

/- Sorting a node's list. -/
theorem stored_sortTlist
    {n : TraceNode}
    (hOk : NodeOk n) :
    (sortTlist n).stored =
      n.stored.mergeSort (fun a b => compareTime a b ≤ 0) := by
  have hLength :
      (n.stored.mergeSort
        (fun a b => compareTime a b ≤ 0)).length =
          n.ntbuf := by
    rw [List.length_mergeSort, length_stored hOk]
  unfold sortTlist TraceNode.stored at *
  simp only []
  exact List.take_left' hLength

/-
  What the scan of a tank that begins at `base` is for: one
  node a key, in strict order, and in each the entries of
  that key's tracebufs by end time.
-/
structure Grouped
    [Rounding]
    (base : Int)
    (xs : List Message)
    (r : ScanResult) : Prop where
  ret : r.ret = (keysOf xs).dedup.length
  keys :
    (r.traceList.map TraceNode.codes).Perm (keysOf xs).dedup
  increasing :
    r.traceList.Pairwise (fun a b => compareSCNL a b < 0)
  count :
    ∀ n ∈ r.traceList,
      n.ntbuf = (keysOf xs).count n.codes
  entries :
    ∀ n ∈ r.traceList,
      n.stored.Perm (entriesOf base n.codes xs)
  sorted :
    ∀ n ∈ r.traceList,
      n.stored.Pairwise
        (fun a b => a.time.toRat ≤ b.time.toRat)

/- Sorting completes what the loop has grouped. -/
theorem GroupedTo.grouped
    [Rounding]
    {host : ByteOrder}
    {base : Int}
    {xs : List Message}
    {s : ScanState}
    (h : GroupedTo host base xs s)
    (hKeys : (keysOf xs).dedup.length < 2 ^ 31) :
    Grouped base xs (scanFinish s) := by
  have hLength :
      s.root.twalk.length = (keysOf xs).dedup.length := by
    rw [← h.keys.length_eq, List.length_map]
  have hStored :
      ∀ n ∈ s.root.twalk,
        (sortTlist n).stored =
          (entriesOf base n.codes xs).mergeSort
            (fun a b => compareTime a b ≤ 0) := by
    intro n hn
    rw [stored_sortTlist (h.ok.nodes n hn), h.entries n hn]
  constructor
  · change s.totaltrace = _
    rw [h.total, hLength]
    exact wrap32_of_mem (by omega) (by omega)
  · change ((s.root.twalk.map sortTlist).map _).Perm _
    rw [List.map_map]
    exact h.keys
  · change (s.root.twalk.map sortTlist).Pairwise _
    rw [List.pairwise_map]
    refine h.ok.ordered.imp ?_
    intro a b hLt
    exact (comparesBy_compareSCNL.neg_iff _ _).mpr hLt
  · intro n hn
    rcases List.mem_map.mp hn with ⟨v, hv, rfl⟩
    change v.ntbuf = (keysOf xs).count v.codes
    rw [← length_stored (h.ok.nodes v hv), h.entries v hv,
      length_entriesOf]
  · intro n hn
    rcases List.mem_map.mp hn with ⟨v, hv, rfl⟩
    rw [hStored v hv]
    exact List.mergeSort_perm _ _
  · intro n hn
    rcases List.mem_map.mp hn with ⟨v, hv, rfl⟩
    rw [hStored v hv]
    exact sorted_mergeSort (finiteTimes_entriesOf _ _ _)

/- A mapped tank holds its bytes. -/
theorem holdsAt_mapTank
    (tank : List UInt8)
    (around : ByteMem) :
    (mapTank tank around).HoldsAt 0 tank := by
  unfold HoldsAt
  apply List.ext_getElem
  · simp
  · intro i hLeft hRight
    rw [getElem_read]
    unfold mapTank
    rw [if_pos (by omega)]
    simp [hRight]

/-
  The scan of a tank of well-formed tracebufs groups them by
  key, when fewer than `2^31` have one key and there are
  fewer than `2^31` keys.
-/
theorem scan_grouped
    [Rounding]
    (host : ByteOrder)
    (xs : List Message)
    (around : ByteMem)
    (hXs : xs ≠ [])
    (hFew : Few xs)
    (hKeys : (keysOf xs).dedup.length < 2 ^ 31) :
    ∃ r,
      (scanLoop host (tankOf xs).length).Ends
          (scanInit (mapTank (tankOf xs) around)) r ∧
        Grouped 0 xs r := by
  have hStart :
      StartsAt 0 (scanInit (mapTank (tankOf xs) around)) :=
    ⟨rfl, rfl, rfl⟩
  rcases ends_of_grouped host hStart hXs
      (holdsAt_mapTank _ _) (zero_add _).symm hFew with
    ⟨s, hEnds, _, hGrouped, _⟩
  exact ⟨_, hEnds, hGrouped.grouped hKeys⟩

section

attribute [local instance] Rounding.exact

/-
  Eight samples from time zero on, at 100 a second, that end
  at 0.02: no more than five intervals before the time that
  is computed for them, if nothing is rounded.
-/
def fiveOff : Tracebuf :=
  { Tracebuf.plain with
    endtime := 0x3F947AE147AE147B
    samprate := 0x4059000000000000
    samples := List.replicate 8 0
    endtime_finite := by decide +kernel
    samprate_finite := by decide +kernel
    samprate_pos := by decide +kernel
    few := by decide
    sample_lt := by
      intro x hx
      rw [List.eq_of_mem_replicate hx]
      decide
    consistent := by decide +kernel }

/- The one message of its tank, and that tank. -/
def fiveOffMessages : List Message :=
  [⟨.little, fiveOff⟩]

def fiveOffTank : List UInt8 :=
  tankOf fiveOffMessages

/- Grouped, it is the one entry of the one trace. -/
def FiveOffGrouped (r : ScanResult) : Prop :=
  Grouped 0 fiveOffMessages r

theorem FiveOffGrouped.map_ntbuf
    {r : ScanResult}
    (hGrouped : FiveOffGrouped r) :
    r.traceList.map TraceNode.ntbuf = [1] := by
  have hKeys : keysOf fiveOffMessages = [fiveOff.codes] := rfl
  have hOne : r.traceList.map TraceNode.codes = [fiveOff.codes] := by
    have hPerm := hGrouped.keys
    rw [hKeys] at hPerm
    exact List.perm_singleton.mp hPerm
  rcases List.map_eq_singleton_iff.mp hOne with ⟨n, hList, hCodes⟩
  have hCount := hGrouped.count n (by rw [hList]; simp)
  rw [hKeys, hCodes] at hCount
  rw [hList, List.map_singleton, hCount]
  simp

end

attribute [local instance] Rounding.nearest

/- A tank of the same tracebuf in either order. -/
theorem scan_grouped_pair :
    ∃ r,
      let xs : List Message :=
        [⟨.little, .plain⟩, ⟨.big, .plain⟩]
      (scanLoop .little (tankOf xs).length).Ends
          (scanInit (mapTank (tankOf xs) (fun _ => 0))) r ∧
        Grouped 0 xs r := by
  refine scan_grouped .little _ _ (by simp) ?_ ?_
  · intro c
    have hLe :=
      List.count_le_length (a := c)
        (l := keysOf [⟨.little, .plain⟩, ⟨.big, .plain⟩])
    have hLength :
        (keysOf [⟨.little, .plain⟩, ⟨.big, .plain⟩]).length =
          2 := rfl
    omega
  · decide

------------------------------------------------------------
-- Tanks That Are Not Grouped
------------------------------------------------------------

/- It is refused with -2, and its trace has no entry. -/
theorem fiveOffTank_stores_nothing :
    ∃ r,
      (scanLoop .little fiveOffTank.length).Ends
          (scanInit (mapTank fiveOffTank (fun _ => 0))) r ∧
        r.traceList.map TraceNode.ntbuf = [0] := by
  have hOnce :
      (scanTracebuf .little fiveOffTank.length 1
        (mapTank fiveOffTank (fun _ => 0))).map
          (fun r => r.traceList.map TraceNode.ntbuf) =
        some [0] := by
    decide +kernel
  rcases Option.map_eq_some_iff.mp hOnce with ⟨r, hRun, hNone⟩
  exact ⟨r, ⟨1, hRun⟩, hNone⟩

/- The tank of `2^31` equal tracebufs. -/
def fullTank [Rounding] : List Message :=
  List.replicate (2 ^ 31) ⟨.little, .plain⟩

/- The list of its one trace cannot grow: -1 is returned. -/
theorem fullTank_returns :
    ∃ m,
      (scanLoop .little (tankOf fullTank).length).Ends
        (scanInit (mapTank (tankOf fullTank) (fun _ => 0)))
        ⟨-1, m, []⟩ := by
  let x : Message := ⟨.little, .plain⟩
  let xs := List.replicate (2 ^ 31 - 1) x
  have hSplit : fullTank = xs ++ x :: [] := by
    have hSucc := List.replicate_succ' (n := 2 ^ 31 - 1) (a := x)
    rw [Nat.sub_add_cancel (by norm_num)] at hSucc
    exact hSucc
  have hKeys :
      keysOf xs =
        List.replicate (2 ^ 31 - 1) x.tracebuf.codes := by
    unfold keysOf xs
    rw [List.map_replicate]
  have hFew : Few xs := by
    intro c
    have hLe := List.count_le_length (a := c) (l := keysOf xs)
    rw [hKeys, List.length_replicate] at hLe
    rw [hKeys]
    omega
  have hFull :
      (keysOf xs).count x.tracebuf.codes + 1 = 2 ^ 31 := by
    rw [hKeys, List.count_replicate_self]
    norm_num
  have hStart :
      StartsAt 0
        (scanInit (mapTank (tankOf fullTank) (fun _ => 0))) :=
    ⟨rfl, rfl, rfl⟩
  have hTank :
      (scanInit
        (mapTank (tankOf fullTank) (fun _ => 0))).mem.HoldsAt 0
          (tankOf (xs ++ x :: [])) := by
    rw [← hSplit]
    exact holdsAt_mapTank _ _
  have hFsize :
      ((tankOf fullTank).length : Int) =
        0 + (tankOf (xs ++ x :: [])).length := by
    rw [← hSplit, zero_add]
  rcases ends_of_full .little hStart hTank hFsize hFew hFull with
    ⟨m, hEnds, _⟩
  exact ⟨m, hEnds⟩

/- Too many of one key, or an end time rounded away. -/
theorem fullTank_not_grouped :
    (¬ ∃ r,
      (scanLoop .little (tankOf fullTank).length).Ends
          (scanInit (mapTank (tankOf fullTank) (fun _ => 0)))
          r ∧
        Grouped 0 fullTank r) ∧
    ¬ ∃ r,
      (scanLoop .little fiveOffTank.length).Ends
          (scanInit (mapTank fiveOffTank (fun _ => 0))) r ∧
        FiveOffGrouped r := by
  constructor
  · rintro ⟨r, hEnds, hGrouped⟩
    rcases fullTank_returns with ⟨m, hFull⟩
    have hRet := hGrouped.ret
    rw [DoLoop.ends_unique hEnds hFull] at hRet
    simp only [] at hRet
    omega
  · rintro ⟨r, hEnds, hGrouped⟩
    rcases fiveOffTank_stores_nothing with ⟨r', hEnds', hNone⟩
    obtain rfl := DoLoop.ends_unique hEnds hEnds'
    rw [hGrouped.map_ntbuf] at hNone
    cases hNone

end TankConvertor
