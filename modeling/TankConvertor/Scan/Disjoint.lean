import TankConvertor.Scan.Progress
import Mathlib.Order.Interval.Set.Disjoint
import Mathlib.Order.CompletePartialOrder

/-
  The tracebufs stored by the scan, in the order they are
  stored, and the ranges of the tank they take.

  Key definitions include:
    * `keptAt`
    * `NotReused`
    * `SizeOk`

  Key theorems include:
    * `stored_perm_of_trace`
    * `inOrder_of_foot`
    * `scan_not_reused`
-/

------------------------------------------------------------
-- What A Run Has Stored
------------------------------------------------------------

namespace TankConvertor

open Trace2Header

/- The entry that the iteration stores, if it does. -/
def keptAt [Rounding] (host : ByteOrder) (s : ScanState) : List TBuf :=
  if Keeps (swapCode host s) (tbufAt host s) then
    [tbufAt host s]
  else
    []

/- The entries of all traces together. -/
def storedTbufs (s : ScanState) : List TBuf :=
  s.root.twalk.flatMap TraceNode.stored

/- A message refused with -1 stores nothing. -/
theorem keptAt_of_refused
    [Rounding]
    {host : ByteOrder}
    {s : ScanState}
    (hRc : swapCode host s = -1) :
    keptAt host s = [] := by
  unfold keptAt
  rw [if_neg]
  rintro ⟨hZero, _⟩
  omega

/- Handling a message adds the entry it keeps. -/
theorem storedTbufs_passMessage
    [Rounding]
    {host : ByteOrder}
    {s : ScanState}
    (hOk : ScanOk s)
    (hDone :
      reallocFailed
        (recordTbuf (swapCode host s) (tbufAt host s)
          (tnodeAt host s)) = false) :
    (storedTbufs
      (passMessage host (swapCode host s)
        (swapped host s))).Perm
      (storedTbufs s ++ keptAt host s) := by
  have hNode : NodeOk (tnodeAt host s) := hOk.tnodeFor _ _
  have hStored := stored_recordTbuf hNode hDone
  have hRecorded :
      (recordTbuf (swapCode host s) (tbufAt host s)
        (tnodeAt host s)).stored =
        (tnodeAt host s).stored ++ keptAt host s := by
    rw [hStored]
    unfold keptAt
    split <;> simp
  rcases passMessage_perm host (swapCode host s)
      (s := swapped host s) hOk.ordered with
    ⟨rest, hNew, hOld⟩
  have hBefore :
      (storedTbufs s).Perm
        ((tnodeAt host s).stored ++
          rest.flatMap TraceNode.stored) := by
    rcases hOld with ⟨_, _, hOld⟩ | ⟨_, hFresh, _, hOld⟩
    · exact hOld.flatMap_right TraceNode.stored
    · have hEmpty : (tnodeAt host s).stored = [] := by
        have hNode : tnodeAt host s = newNode _ := hFresh
        rw [hNode]
        rfl
      rw [hEmpty]
      exact hOld.flatMap_right TraceNode.stored
  have hAfter := hNew.flatMap_right TraceNode.stored
  rw [List.flatMap_cons] at hAfter
  refine hAfter.trans ?_
  change
    ((recordTbuf (swapCode host s) (tbufAt host s)
      (tnodeAt host s)).stored ++
        rest.flatMap TraceNode.stored).Perm _
  rw [hRecorded, List.append_assoc]
  refine
    ((List.perm_append_comm).append_left _).trans ?_
  rw [← List.append_assoc]
  exact hBefore.symm.append_right _

/- What an iteration that goes on has stored. -/
theorem storedTbufs_of_foot
    [Rounding]
    {host : ByteOrder}
    {fsize : Nat}
    {s s' : ScanState}
    (hOk : ScanOk s)
    (hFoot : scanBody host fsize s = .foot s') :
    (storedTbufs s').Perm (storedTbufs s ++ keptAt host s) := by
  rcases foot_cases hFoot with
    ⟨hRc, _, rfl⟩ | ⟨_, hDone, rfl⟩
  · rw [keptAt_of_refused hRc, List.append_nil]
    exact List.Perm.refl _
  · exact storedTbufs_passMessage hOk hDone

/- The nodes hold what the iterations have stored. -/
theorem stored_perm_of_trace
    [Rounding]
    {host : ByteOrder}
    {fsize : Nat}
    {m : ByteMem}
    {hs : List ScanState}
    {s : ScanState}
    (hTrace :
      (scanLoop host fsize).Trace (scanInit m) hs s) :
    ScanOk s ∧
      (storedTbufs s).Perm (hs.flatMap (keptAt host)) := by
  refine hTrace.invariant
    (fun hs s =>
      ScanOk s ∧
        (storedTbufs s).Perm (hs.flatMap (keptAt host)))
    ⟨ScanOk.init m, List.Perm.refl _⟩ ?_
  rintro hs s s' ⟨hOk, hPerm⟩ hFoot
  refine ⟨hOk.of_foot hFoot, ?_⟩
  rw [List.flatMap_append, List.flatMap_cons,
    List.flatMap_nil, List.append_nil]
  exact (storedTbufs_of_foot hOk hFoot).trans
    (hPerm.append_right _)

------------------------------------------------------------
-- Ranges Of The Tank
------------------------------------------------------------

namespace TBuf

/- Address after the last byte of an entry. -/
def stop (e : TBuf) : Int :=
  e.offset + e.size

/- The addresses an entry stands for. -/
def range (e : TBuf) : Set Int :=
  Set.Ico e.offset e.stop

end TBuf

/-
  Stored one after the other, the entries have increasing
  offsets, hold at least a header, and share no byte.
-/
structure NotReused (log : List TBuf) : Prop where
  increasing :
    log.Pairwise (fun a b => a.offset < b.offset)
  whole : ∀ e ∈ log, sizeofTrace2Header ≤ e.size
  disjoint :
    log.Pairwise (fun a b => Disjoint a.range b.range)

/- Entries that follow each other do not overlap. -/
theorem notReused_of_ordered
    {log : List TBuf}
    (hWhole : ∀ e ∈ log, sizeofTrace2Header ≤ e.size)
    (hOrdered :
      log.Pairwise (fun a b => a.stop ≤ b.offset)) :
    NotReused log where
  increasing := by
    refine hOrdered.imp_of_mem ?_
    intro a b ha _ hEnd
    have hSize := hWhole a ha
    unfold TBuf.stop at hEnd
    unfold sizeofTrace2Header at hSize
    omega
  whole := hWhole
  disjoint := by
    refine hOrdered.imp ?_
    intro a b hEnd
    unfold TBuf.range
    rw [Set.Ico_disjoint_Ico]
    exact (min_le_left _ _).trans
      (hEnd.trans (le_max_right _ _))

------------------------------------------------------------
-- When No Byte Is Used Twice
------------------------------------------------------------

/-
  The header at the cursor, if it is let through, has a data
  length that is not negative; one that is inconsistent, and
  so is not stored, may reach back over its own header.
-/
def SizeOk [Rounding] (host : ByteOrder) (s : ScanState) : Prop :=
  ∀ o k,
    kindOf (datatype0 s.mem s.tankbyte)
        (datatype1 s.mem s.tankbyte) = some (o, k) →
      nsamp o s.mem s.tankbyte ≤ k.capacity →
        (if Inconsistent o s.mem s.tankbyte then -64 else 0) ≤
          wrap32
            (bytePerSample (swapMem host s) s.tankbyte *
              nsamp o s.mem s.tankbyte)

/- A message that is let through has a kind. -/
theorem exists_kind_of_let_through
    [Rounding]
    {host : ByteOrder}
    {s : ScanState}
    (hRc : swapCode host s ≠ -1) :
    ∃ o k,
      kindOf (datatype0 s.mem s.tankbyte)
          (datatype1 s.mem s.tankbyte) = some (o, k) ∧
        nsamp o s.mem s.tankbyte ≤ k.capacity ∧
        (swapCode host s = 0 →
          ¬ Inconsistent o s.mem s.tankbyte) ∧
        datalen host (swapMem host s) s.tankbyte =
          wrap32
            (bytePerSample (swapMem host s) s.tankbyte *
              nsamp o s.mem s.tankbyte) := by
  unfold swapCode at hRc ⊢
  rcases swapWavemsg2Makelocal_cases host s.mem s.tankbyte with
    ⟨_, hRes⟩ | ⟨o, k, hKind, hExit⟩
  · rw [hRes] at hRc
    exact (hRc rfl).elim
  · have hLength :
        nsamp o s.mem s.tankbyte ≤ k.capacity →
          datalen host (swapMem host s) s.tankbyte =
            wrap32
              (bytePerSample (swapMem host s) s.tankbyte *
                nsamp o s.mem s.tankbyte) := by
      intro hFew
      have hReads :
          ReadsAs host o s.mem (swapMem host s) s.tankbyte :=
        readsAs_of_few hKind hFew
      unfold datalen
      rw [hReads.nsamp]
    rcases hExit with ⟨_, hRes⟩ | ⟨hFew, _, hRes⟩ |
      ⟨hFew, hGood, hRes⟩
    · rw [hRes] at hRc
      exact (hRc rfl).elim
    · refine ⟨o, k, hKind, hFew, ?_, hLength hFew⟩
      rw [hRes]
      intro hZero
      cases hZero
    · exact ⟨o, k, hKind, hFew, fun _ => hGood, hLength hFew⟩

/- A sound header has the size and the reach of its data. -/
theorem datalen_of_sizeOk
    [Rounding]
    {host : ByteOrder}
    {s : ScanState}
    (hSize : SizeOk host s)
    (hRc : swapCode host s ≠ -1) :
    -64 ≤ datalen host (swapMem host s) s.tankbyte ∧
      (swapCode host s = 0 →
        0 ≤ datalen host (swapMem host s) s.tankbyte) := by
  rcases exists_kind_of_let_through hRc with
    ⟨o, k, hKind, hFew, hGood, hLength⟩
  have hBound := hSize o k hKind hFew
  rw [hLength]
  constructor
  · refine le_trans ?_ hBound
    split <;> decide
  · intro hZero
    rwa [if_neg (hGood hZero)] at hBound

/- The entry of a length that is not negative. -/
theorem size_tbufAt
    [Rounding]
    {host : ByteOrder}
    {s : ScanState}
    (hNonneg :
      0 ≤ datalen host (swapMem host s) s.tankbyte) :
    ((tbufAt host s).size : Int) =
      datalen host (swapMem host s) s.tankbyte +
        sizeofTrace2Header := by
  have hUpper :
      datalen host (swapMem host s) s.tankbyte < 2 ^ 31 :=
    wrap32_upper _
  change
    ((((datalen host (swapMem host s) s.tankbyte +
      sizeofTrace2Header) % 2 ^ 64).toNat : Nat) : Int) = _
  unfold sizeofTrace2Header
  omega

/-
  The entries stored follow each other, and the last ends
  where the cursor stands or before.
-/
structure InOrder (log : List TBuf) (tankbyte : Int) : Prop where
  whole : ∀ e ∈ log, sizeofTrace2Header ≤ e.size
  ordered :
    log.Pairwise (fun a b => a.stop ≤ b.offset)
  behind : ∀ e ∈ log, e.stop ≤ tankbyte

namespace InOrder

variable {log : List TBuf} {p p' : Int} {e : TBuf}

/- The cursor may move forward. -/
theorem mono
    (h : InOrder log p)
    (hLe : p ≤ p') :
    InOrder log p' :=
  ⟨h.whole, h.ordered,
    fun e he => (h.behind e he).trans hLe⟩

/- An entry made at the cursor and passed may be stored. -/
theorem snoc
    (h : InOrder log p)
    (hWhole : sizeofTrace2Header ≤ e.size)
    (hOffset : e.offset = p)
    (hNext : p' = p + e.size) :
    InOrder (log ++ [e]) p' where
  whole := by
    intro a ha
    rcases List.mem_append.mp ha with hOld | hNew
    · exact h.whole a hOld
    · rwa [List.mem_singleton.mp hNew]
  ordered := by
    rw [List.pairwise_append]
    refine ⟨h.ordered, List.pairwise_singleton _ _, ?_⟩
    intro a ha b hb
    rw [List.mem_singleton.mp hb, hOffset]
    exact h.behind a ha
  behind := by
    intro a ha
    rcases List.mem_append.mp ha with hOld | hNew
    · have hBehind := h.behind a hOld
      omega
    · rw [List.mem_singleton.mp hNew]
      unfold TBuf.stop
      omega

end InOrder

/- A sound iteration keeps the entries in order. -/
theorem inOrder_of_foot
    [Rounding]
    {host : ByteOrder}
    {fsize : Nat}
    {log : List TBuf}
    {s s' : ScanState}
    (hSize : SizeOk host s)
    (hFoot : scanBody host fsize s = .foot s')
    (h : InOrder log s.tankbyte) :
    InOrder (log ++ keptAt host s) s'.tankbyte := by
  have hCursor := tankbyte_of_foot hFoot
  unfold nextTankbyte at hCursor
  by_cases hRc : swapCode host s = -1
  · rw [if_pos hRc] at hCursor
    rw [keptAt_of_refused hRc, List.append_nil]
    exact h.mono (by omega)
  · rw [if_neg hRc] at hCursor
    rcases datalen_of_sizeOk hSize hRc with ⟨hReach, hLength⟩
    unfold keptAt
    split
    · rename_i hKeeps
      have hEntry := size_tbufAt (hLength hKeeps.1)
      refine h.snoc ?_ rfl ?_
      · have hNonneg := hLength hKeeps.1
        omega
      · rw [hCursor, hEntry]
    · rw [List.append_nil]
      refine h.mono ?_
      unfold sizeofTrace2Header at hCursor
      omega

/- No byte of the tank stands for two stored tracebufs. -/
def NoByteTwice
    [Rounding]
    (host : ByteOrder)
    (hs : List ScanState)
    (s : ScanState) : Prop :=
  (storedTbufs s).Perm (hs.flatMap (keptAt host)) ∧
    NotReused (hs.flatMap (keptAt host))

/-
  In a run over sound headers the entries stay in order, and
  so no byte of the tank is used twice.
-/
theorem scan_not_reused
    [Rounding]
    {host : ByteOrder}
    {tank : List UInt8}
    {around : ByteMem}
    {hs : List ScanState}
    {s : ScanState}
    (hTrace :
      (scanLoop host tank.length).Trace
        (scanInit (mapTank tank around)) hs s)
    (hSize : ∀ h ∈ hs, SizeOk host h) :
    NoByteTwice host hs s := by
  refine ⟨(stored_perm_of_trace hTrace).2, ?_⟩
  have hOrder : InOrder (hs.flatMap (keptAt host)) s.tankbyte := by
    refine hTrace.invariant
      (fun hs s =>
        (∀ h ∈ hs, SizeOk host h) →
          InOrder (hs.flatMap (keptAt host)) s.tankbyte)
      ?_ ?_ hSize
    · intro _
      exact ⟨by simp, by simp, by simp⟩
    · intro hs s s' hPrev hFoot hAll
      rw [List.flatMap_append, List.flatMap_cons,
        List.flatMap_nil, List.append_nil]
      refine inOrder_of_foot (hAll s (by simp)) hFoot ?_
      exact hPrev
        (fun h hMem => hAll h (List.mem_append_left _ hMem))
  exact notReused_of_ordered hOrder.whole hOrder.ordered

attribute [local instance] Rounding.nearest

/- A tank of one header without samples. -/
theorem scan_not_reused_header :
    ∃ s,
      NoByteTwice .little
        [scanInit
          (mapTank
            (oneHeader (List.replicate 4 0)
              (List.replicate 8 0))
            (fun _ => 0))]
        s := by
  let tank :=
    oneHeader (List.replicate 4 0) (List.replicate 8 0)
  let m := mapTank tank (fun _ => 0)
  have hCode : swapCode .little (scanInit m) ≠ -1 := by
    decide +kernel
  refine ⟨_, scan_not_reused
    (trace_of_first tank.length hCode) ?_⟩
  intro s hs
  rw [List.mem_singleton.mp hs]
  intro o k hKind _
  have hI4 :
      kindOf (datatype0 m 0) (datatype1 m 0) =
        some (.little, .i4) := by decide +kernel
  have hEq := Option.some.inj (hI4.symm.trans hKind)
  cases hEq
  decide +kernel

------------------------------------------------------------
-- A Tank That Is Stored Twice Over
------------------------------------------------------------

/- -16 samples, with the end time they would have. -/
def emptyMessageTank : List UInt8 :=
  oneHeader [0xF0, 0xFF, 0xFF, 0xFF]
    [0, 0, 0, 0, 0, 0, 0x31, 0xC0]

/- The header is stored as an entry that takes no byte. -/
theorem emptyMessageTank_reused :
    ¬ ∀ hs s,
      (scanLoop .little emptyMessageTank.length).Trace
          (scanInit (mapTank emptyMessageTank (fun _ => 0)))
          hs s →
        NoByteTwice .little hs s := by
  let m := mapTank emptyMessageTank (fun _ => 0)
  have hCode : swapCode .little (scanInit m) ≠ -1 := by
    decide +kernel
  have hKept :
      (tbufAt .little (scanInit m)) ∈
        [scanInit m].flatMap (keptAt .little) := by
    have hKeeps :
        Keeps (swapCode .little (scanInit m))
          (tbufAt .little (scanInit m)) := by decide +kernel
    simp [keptAt, hKeeps]
  have hSize : (tbufAt .little (scanInit m)).size = 0 := by
    decide +kernel
  intro hAll
  have hTwice :=
    hAll _ _ (trace_of_first emptyMessageTank.length hCode)
  have hWhole := hTwice.2.whole _ hKept
  rw [hSize] at hWhole
  exact absurd hWhole (by decide)

end TankConvertor
