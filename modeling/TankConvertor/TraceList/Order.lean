import TankConvertor.TraceList.Coverage

/-
  The order of the segments of a trace: by their starts, in
  every trace list that records can make.  The segment that
  is merged into another is never the first of its trace, to
  which `first` goes on pointing.

  Key theorems include:
    * `trace_segments_sorted`
-/

------------------------------------------------------------
-- Settling
------------------------------------------------------------

namespace TankConvertor

/- Segments in the order of their starts. -/
def StartSorted (segs : List MsSegment) : Prop :=
  segs.Pairwise (fun a b => a.starttime ≤ b.starttime)

/- Behind the segment there is none that starts before it. -/
theorem moveDown_rest
    {s : MsSegment}
    {front rest : List MsSegment}
    (hSorted : StartSorted rest) :
    ∀ n ∈ (moveDown s front rest).2,
      s.starttime ≤ n.starttime := by
  induction rest generalizing front with
  | nil => exact List.forall_mem_nil _
  | cons n rest ih =>
      rcases List.pairwise_cons.mp hSorted with ⟨hHead, hTail⟩
      rw [moveDown]
      split
      case isTrue => exact ih hTail
      case isFalse hStop =>
        have hHere : s.starttime ≤ n.starttime :=
          not_lt.mp (not_or.mp hStop).1
        exact List.forall_mem_cons.mpr
          ⟨hHere, fun m hm => hHere.trans (hHead m hm)⟩

theorem moveUp_rest
    {s : MsSegment}
    {front rest : List MsSegment}
    (hRest : ∀ n ∈ rest, s.starttime ≤ n.starttime) :
    ∀ n ∈ (moveUp s front rest).2, s.starttime ≤ n.starttime := by
  induction front generalizing rest with
  | nil => exact hRest
  | cons p front ih =>
      rw [moveUp]
      split
      case isTrue hMove =>
        refine ih (List.forall_mem_cons.mpr ⟨?_, hRest⟩)
        rcases hMove with hLess | ⟨hSame, -⟩
        · exact hLess.le
        · exact hSame.le
      case isFalse => exact hRest

/- And before it there is none that starts after it. -/
theorem moveUp_front
    {s : MsSegment}
    {front rest : List MsSegment}
    (hSorted : StartSorted front.reverse) :
    ∀ p ∈ (moveUp s front rest).1,
      p.starttime ≤ s.starttime := by
  induction front generalizing rest with
  | nil => exact List.forall_mem_nil _
  | cons p front ih =>
      rw [List.reverse_cons] at hSorted
      rcases List.pairwise_append.mp hSorted with
        ⟨hFront, -, hApart⟩
      rw [moveUp]
      split
      case isTrue => exact ih hFront
      case isFalse hStop =>
        have hHere : p.starttime ≤ s.starttime :=
          not_lt.mp (not_or.mp hStop).1
        refine List.forall_mem_cons.mpr ⟨hHere, fun q hq => ?_⟩
        exact (hApart q (List.mem_reverse.mpr hq) p
          (List.mem_singleton_self p)).trans hHere

/- One segment among others in order is sorted into place. -/
theorem settle_sorted
    {segs : List MsSegment}
    {k : Nat}
    (hOthers : StartSorted (segs.eraseIdx k)) :
    StartSorted (settle segs k) := by
  cases hAt : segs[k]? with
  | none =>
      rw [settle, hAt]
      rw [List.eraseIdx_of_length_le
        (List.getElem?_eq_none_iff.mp hAt)] at hOthers
      exact hOthers
  | some s =>
      rcases settle_eq hAt with
        ⟨mid, rear, front, rest, hDown, hUp, hMid, hSame, hSettle⟩
      have hDrop : StartSorted (segs.drop (k + 1)) := by
        rw [List.eraseIdx_eq_take_drop_succ] at hOthers
        exact (List.pairwise_append.mp hOthers).2.1
      have hRear : ∀ n ∈ (moveDown s (segs.take k).reverse
          (segs.drop (k + 1))).2, s.starttime ≤ n.starttime :=
        moveDown_rest hDrop
      rw [hDown] at hRear
      have hFront : StartSorted mid.reverse := by
        rw [← hMid] at hOthers
        exact (List.pairwise_append.mp hOthers).1
      have hBefore : ∀ p ∈ (moveUp s mid rear).1,
          p.starttime ≤ s.starttime :=
        moveUp_front hFront
      have hBehind : ∀ n ∈ (moveUp s mid rear).2,
          s.starttime ≤ n.starttime :=
        moveUp_rest hRear
      rw [hUp] at hBefore hBehind
      rw [← hSame] at hOthers
      rcases List.pairwise_append.mp hOthers with
        ⟨hFirst, hLast, hApart⟩
      rw [hSettle]
      refine List.pairwise_append.mpr
        ⟨hFirst, List.pairwise_cons.mpr ⟨hBehind, hLast⟩, ?_⟩
      intro p hp
      refine List.forall_mem_cons.mpr
        ⟨hBefore p (List.mem_reverse.mp hp), hApart p hp⟩

------------------------------------------------------------
-- Adding a Record
------------------------------------------------------------

section Adding

variable {r : TraceRecord}
variable {segs : List MsSegment}

theorem set_eraseIdx
    {xs : List MsSegment}
    {k : Nat}
    (hInside : k < xs.length)
    (s : MsSegment) :
    k < (xs.set k s).length ∧
      ((xs.set k s).eraseIdx k).Sublist xs := by
  rw [List.length_set, List.eraseIdx_set_eq]
  exact ⟨hInside, List.eraseIdx_sublist xs k⟩

/-
  Without an error all segments but one are segments that
  there were, in their order.
-/
theorem putAt_eraseIdx
    {p : Place}
    {k : Nat}
    (hSuits : p.Suits r segs)
    (hIndex : (putAt r segs p).index = some k) :
    k < (putAt r segs p).segments.length ∧
      ((putAt r segs p).segments.eraseIdx k).Sublist segs := by
  cases p with
  | endOf i =>
      rcases hSuits with ⟨s, hAt, -, -⟩
      have hInside := (List.getElem?_eq_some_iff.mp hAt).1
      rw [putAt, hAt, Option.bind_some] at hIndex ⊢
      split at hIndex
      case h_1 => cases hIndex
      case h_2 s' hAdd =>
        obtain rfl : i = k := Option.some.inj hIndex
        exact set_eraseIdx hInside s'
  | startOf j =>
      rcases hSuits with ⟨s, hAt, -, -⟩
      have hInside := (List.getElem?_eq_some_iff.mp hAt).1
      rw [putAt, hAt, Option.bind_some] at hIndex ⊢
      split at hIndex
      case h_1 => cases hIndex
      case h_2 s' hAdd =>
        obtain rfl : j = k := Option.some.inj hIndex
        exact set_eraseIdx hInside s'
  | between i j =>
      rcases hSuits with ⟨hApart, ⟨s, hAt, -⟩, ⟨s₂, hAt₂, -⟩⟩
      have hStill := getElem?_eraseIdx_other hApart hAt
      have hInside := (List.getElem?_eq_some_iff.mp hStill).1
      rw [putAt, hAt, Option.bind_some, hAt₂] at hIndex ⊢
      simp only [Option.bind_some] at hIndex ⊢
      split at hIndex
      case h_1 => cases hIndex
      case h_2 s₁ hAdd =>
        split at hIndex
        case h_1 => cases hIndex
        case h_2 s' hAddSeg =>
          obtain rfl := Option.some.inj hIndex
          have hSet := set_eraseIdx hInside s'
          exact ⟨hSet.1,
            hSet.2.trans (List.eraseIdx_sublist segs j)⟩
  | newAt n =>
      obtain rfl : n = k := Option.some.inj hIndex
      have hInside : n ≤ segs.length := hSuits
      refine ⟨?_, ?_⟩
      · show n < (segs.insertIdx n r.segment).length
        rw [List.length_insertIdx_of_le_length hInside]
        omega
      · show ((segs.insertIdx n r.segment).eraseIdx n).Sublist segs
        rw [List.eraseIdx_insertIdx_self]

/- With an error the starts are what they were. -/
theorem putAt_starts
    {p : Place}
    (hSuits : p.Suits r segs)
    (hIndex : (putAt r segs p).index = none) :
    (putAt r segs p).segments.map MsSegment.starttime =
      segs.map MsSegment.starttime := by
  cases p with
  | endOf i =>
      rw [putAt] at hIndex ⊢
      split at hIndex
      · rfl
      · cases hIndex
  | startOf j =>
      rw [putAt] at hIndex ⊢
      split at hIndex
      · rfl
      · cases hIndex
  | between i j =>
      rcases hSuits with ⟨-, ⟨s, hAt, -⟩, -⟩
      rw [putAt, hAt, Option.bind_some] at hIndex ⊢
      split at hIndex
      case h_1 => rfl
      case h_2 s₁ hAdd =>
        dsimp only
        split at hIndex
        case h_1 =>
          exact map_set_same hAt (addAtEnd_spec hAdd).1
        case h_2 => cases hIndex
  | newAt n => cases hIndex

/- The segments of a trace, of which there is at least one. -/
structure InStartOrder (segs : List MsSegment) : Prop where
  ne_nil : segs ≠ []
  sorted : StartSorted segs

theorem addToTrace_inStartOrder
    {id : MsTraceID}
    (hOrder : InStartOrder id.segments) :
    InStartOrder (addToTrace r id).1.segments := by
  unfold addToTrace
  split
  case h_1 first last hFirst hLast =>
    have hSuits := placeFor_suits (r := r) hFirst hLast
    dsimp only
    split
    case h_1 hIndex =>
      have hStarts := putAt_starts hSuits hIndex
      refine ⟨fun hNil => ?_, ?_⟩
      · have hNone : (putAt r id.segments
            (placeFor r id first last)).segments = [] :=
          hNil
        have hLength := congrArg List.length hStarts
        rw [List.length_map, List.length_map, hNone] at hLength
        exact hOrder.ne_nil (List.length_eq_zero_iff.mp hLength.symm)
      · have hSorted := List.pairwise_map.mpr hOrder.sorted
        rw [← hStarts] at hSorted
        exact List.pairwise_map.mp hSorted
    case h_2 k hIndex =>
      rcases putAt_eraseIdx hSuits hIndex with ⟨hInside, hOthers⟩
      refine ⟨fun hNil => ?_,
        settle_sorted (hOrder.sorted.sublist hOthers)⟩
      have hNone : settle (putAt r id.segments
          (placeFor r id first last)).segments k = [] :=
        hNil
      have hLength := (settle_perm (putAt r id.segments
        (placeFor r id first last)).segments k).length_eq
      rw [hNone, List.length_nil] at hLength
      omega
  case h_2 => exact hOrder

end Adding

------------------------------------------------------------
-- Trace Lists
------------------------------------------------------------

theorem mstl3Addmsr_inStartOrder
    {l : MsTraceList}
    {r : TraceRecord}
    (hOrder : ∀ id ∈ l.traces, InStartOrder id.segments) :
    ∀ id ∈ (mstl3Addmsr l r).1.traces,
      InStartOrder id.segments := by
  unfold mstl3Addmsr
  split
  case isTrue => exact hOrder
  case isFalse =>
    split
    case h_1 k hFind =>
      cases hAt : l.traces[k]? with
      | none => exact hOrder
      | some id =>
          intro t hMem
          rcases List.mem_or_eq_of_mem_set hMem with hMem | rfl
          · exact hOrder t hMem
          · exact addToTrace_inStartOrder
              (hOrder id (List.mem_of_getElem? hAt))
    case h_2 =>
      intro t hMem
      rcases List.eq_or_mem_of_mem_insertIdx hMem with rfl | hMem
      · exact ⟨List.cons_ne_nil _ _, List.pairwise_singleton _ _⟩
      · exact hOrder t hMem

theorem addRecords_inStartOrder
    {l : MsTraceList}
    (rs : List TraceRecord)
    (hOrder : ∀ id ∈ l.traces, InStartOrder id.segments) :
    ∀ id ∈ (addRecords l rs).1.traces,
      InStartOrder id.segments := by
  induction rs generalizing l with
  | nil => exact hOrder
  | cons r rs ih => exact ih (mstl3Addmsr_inStartOrder hOrder)

/-
  The search is not made where the record fits in front of
  the first segment or behind the last one.
-/
theorem between_inside
    {r : TraceRecord}
    {id : MsTraceID}
    {first last : MsSegment}
    {i j : Nat}
    (hFirst : id.segments.head? = some first)
    (hLast : id.segments.getLast? = some last)
    (hPlace : placeFor r id first last = .between i j) :
    i + 1 < id.segments.length ∧ 0 < j ∧
      j < id.segments.length ∧ i ≠ j := by
  have hSuits := placeFor_suits (r := r) hFirst hLast
  rw [hPlace] at hSuits
  rcases hSuits with
    ⟨hApart, ⟨s, hAt, hFits⟩, ⟨s₂, hAt₂, hFits₂⟩⟩
  have hi := (List.getElem?_eq_some_iff.mp hAt).1
  have hj := (List.getElem?_eq_some_iff.mp hAt₂).1
  unfold placeFor at hPlace
  split at hPlace
  case isTrue => cases hPlace
  case isFalse hNotLast =>
    split at hPlace
    · cases hPlace
    split at hPlace
    · cases hPlace
    split at hPlace
    case isTrue => cases hPlace
    case isFalse hNotFirst =>
      refine ⟨lt_of_le_of_ne hi fun hEnd => hNotLast ?_,
        Nat.pos_of_ne_zero fun hZero => hNotFirst ?_, hj, hApart⟩
      · rw [List.getLast?_eq_getElem?, ← hEnd] at hLast
        obtain rfl := Option.some.inj (hLast.symm.trans hAt)
        exact hFits
      · rw [List.head?_eq_getElem?, ← hZero] at hFirst
        obtain rfl := Option.some.inj (hFirst.symm.trans hAt₂)
        exact hFits₂

/-
  In every trace list that records make, in any order, the
  segments of a trace are sorted by their starts; and where
  a next record closes the gap between two of them, the one
  that is removed is not the first, nor is the one that it is
  added to the last.
-/
theorem trace_segments_sorted
    {rs : List TraceRecord}
    {l : MsTraceList}
    {returned : List Bool}
    (hRun : addRecords MsTraceList.init rs = (l, returned))
    {id : MsTraceID}
    (hId : id ∈ l.traces) :
    ∃ first last,
      id.segments.head? = some first ∧
        id.segments.getLast? = some last ∧
        id.segments.Pairwise
          (fun a b => a.starttime ≤ b.starttime) ∧
        ∀ (r : TraceRecord) (i j : Nat),
          placeFor r id first last = .between i j →
            i + 1 < id.segments.length ∧ 0 < j ∧
              j < id.segments.length ∧ i ≠ j := by
  have hOrder := addRecords_inStartOrder (l := MsTraceList.init)
    rs (List.forall_mem_nil _)
  rw [hRun] at hOrder
  rcases hOrder id hId with ⟨hSome, hSorted⟩
  refine ⟨_, _, List.head?_eq_some_head hSome,
    List.getLast?_eq_some_getLast hSome, hSorted, ?_⟩
  intro r i j hPlace
  exact between_inside (List.head?_eq_some_head hSome)
    (List.getLast?_eq_some_getLast hSome) hPlace

/- Before the gap is filled there are two segments. -/
theorem trace_segments_sorted_gap :
    ∃ l id first last,
      addRecords MsTraceList.init (gapRecords.take 2) =
          (l, [true, true]) ∧
        id ∈ l.traces ∧ id.segments.length = 2 ∧
        (∀ (r : TraceRecord) (i j : Nat),
          placeFor r id first last = .between i j →
            i + 1 < 2 ∧ 0 < j ∧ j < 2 ∧ i ≠ j) ∧
        id.segments.Pairwise
          (fun a b => a.starttime ≤ b.starttime) := by
  have hTraces :
      (addRecords MsTraceList.init
          (gapRecords.take 2)).1.traces.map
          (fun id => id.segments.length) = [2] := by
    decide +kernel
  have hReturned :
      (addRecords MsTraceList.init (gapRecords.take 2)).2 =
        [true, true] := by
    decide +kernel
  rcases hRun : addRecords MsTraceList.init (gapRecords.take 2)
    with ⟨l, returned⟩
  rw [hRun] at hTraces hReturned
  obtain rfl : returned = [true, true] := hReturned
  have hMem : 2 ∈ l.traces.map (fun id => id.segments.length) := by
    rw [hTraces]
    exact List.mem_singleton_self 2
  rcases List.mem_map.mp hMem with ⟨id, hId, hTwo⟩
  rcases trace_segments_sorted hRun hId with
    ⟨first, last, -, -, hSorted, hInside⟩
  rw [hTwo] at hInside
  exact ⟨l, id, first, last, rfl, hId, hTwo, hInside, hSorted⟩

end TankConvertor
