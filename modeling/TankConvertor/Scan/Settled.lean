import TankConvertor.Scan.Grouping

/-
  What a scan over sound headers leaves behind: an entry that
  was stored is never written to again, so that the memory it
  has at the end is the one it was stored from.

  Key definitions include:
    * `SettledAt`

  Key theorems include:
    * `swapMem_of_lt`
    * `settled_of_trace`
    * `settled_of_ends`
-/

------------------------------------------------------------
-- Bytes Before The Cursor
------------------------------------------------------------

namespace TankConvertor

open Trace2Header

/- A message is swapped from its first byte on. -/
theorem localMessage_of_lt
    {host o : ByteOrder}
    {m : ByteMem}
    {p i : Int}
    {v : UInt8}
    {k : SampleKind}
    (hLt : i < p) :
    localMessage host o m p v k i = m i := by
  rw [localMessage_of_front host o m p v (by omega),
    localHeader_of_outside host o m p v (Or.inl hLt)]

/- Whatever becomes of a message, what it follows stays. -/
theorem swapMem_of_lt
    [Rounding]
    {host : ByteOrder}
    {s : ScanState}
    {i : Int}
    (hLt : i < s.tankbyte) :
    swapMem host s i = s.mem i := by
  unfold swapMem
  rcases swapWavemsg2Makelocal_cases host s.mem s.tankbyte with
    ⟨_, hRes⟩ | ⟨o, k, _, ⟨_, hRes⟩ | ⟨_, _, hRes⟩ |
      ⟨_, _, hRes⟩⟩
  · rw [hRes]
  · rw [hRes]
    exact localHeader_of_outside host o s.mem _ _ (Or.inl hLt)
  · rw [hRes]
    exact localHeader_of_outside host o s.mem _ _ (Or.inl hLt)
  · rw [hRes]
    exact localMessage_of_lt hLt

/- The foot is reached with the memory as it was swapped. -/
theorem mem_of_foot
    [Rounding]
    {host : ByteOrder}
    {fsize : Nat}
    {s s' : ScanState}
    (hFoot : scanBody host fsize s = .foot s') :
    s'.mem = swapMem host s := by
  rcases foot_cases hFoot with ⟨_, _, rfl⟩ | ⟨_, _, rfl⟩ <;>
    rfl

/- A message that takes up the tank is its only head. -/
theorem eq_scanInit_of_head
    [Rounding]
    {host : ByteOrder}
    {fsize : Nat}
    {m : ByteMem}
    {h : ScanState}
    (hPast : (fsize : Int) ≤ nextTankbyte host (scanInit m))
    (hHead : (scanLoop host fsize).Head (scanInit m) h) :
    h = scanInit m := by
  refine hHead.eq_entry ?_
  intro s' hFoot
  have hCursor := tankbyte_of_foot hFoot
  apply decide_eq_false
  rw [hCursor, not_lt]
  exact hPast

------------------------------------------------------------
-- Entries Of The Result
------------------------------------------------------------

/- The lists of the result hold the entries of the run. -/
theorem mem_stored_scanFinish
    {s : ScanState}
    {e : TBuf}
    (hOk : ScanOk s)
    {n : TraceNode}
    (hNode : n ∈ (scanFinish s).traceList)
    (he : e ∈ n.stored) :
    e ∈ storedTbufs s := by
  rcases List.mem_map.mp hNode with ⟨v, hv, rfl⟩
  rw [stored_sortTlist (hOk.nodes v hv)] at he
  exact List.mem_flatMap.mpr
    ⟨v, hv, (List.mergeSort_perm _ _).mem_iff.mp he⟩

------------------------------------------------------------
-- Entries Along A Run
------------------------------------------------------------

/-
  The entry was stored from the head `h`, and its bytes in
  `m` are those that the iteration left.
-/
structure SettledAt
    [Rounding]
    (host : ByteOrder)
    (m : ByteMem)
    (e : TBuf)
    (h : ScanState) : Prop where
  kept : e ∈ keptAt host h
  bytes : ∀ i < e.stop, m i = swapMem host h i

section

variable [Rounding]
variable {host : ByteOrder} {fsize : Nat}
variable {m : ByteMem} {s : ScanState} {e : TBuf}

theorem SettledAt.eq
    {h : ScanState}
    (hSettled : SettledAt host m e h) :
    e = tbufAt host h ∧ Keeps (swapCode host h) e := by
  have hKept := hSettled.kept
  unfold keptAt at hKept
  split at hKept
  · rename_i hKeeps
    have hSame := List.mem_singleton.mp hKept
    exact ⟨hSame, hSame ▸ hKeeps⟩
  · cases hKept

/- A stored entry holds its header. -/
theorem SettledAt.header_le_stop
    {h : ScanState}
    (hSettled : SettledAt host m e h)
    (hSize : SizeOk host h) :
    e.offset + sizeofTrace2Header ≤ e.stop := by
  rcases hSettled.eq with ⟨rfl, hCode, _⟩
  have hRc : swapCode host h ≠ -1 := by omega
  have hLength := (datalen_of_sizeOk hSize hRc).2 hCode
  have hEntry := size_tbufAt hLength
  unfold TBuf.stop
  omega

/- Swapping at the cursor does not touch what is behind it. -/
theorem SettledAt.swapped
    {h : ScanState}
    (hSettled : SettledAt host s.mem e h)
    (hBehind : e.stop ≤ s.tankbyte) :
    SettledAt host (swapMem host s) e h where
  kept := hSettled.kept
  bytes := by
    intro i hLt
    rw [swapMem_of_lt (lt_of_lt_of_le hLt hBehind)]
    exact hSettled.bytes i hLt

/- What the entries of a run have in common. -/
structure Settled
    (host : ByteOrder)
    (hs : List ScanState)
    (s : ScanState) : Prop where
  order : InOrder (hs.flatMap (keptAt host)) s.tankbyte
  entries :
    ∀ e ∈ hs.flatMap (keptAt host),
      ∃ h ∈ hs, SettledAt host s.mem e h

/- A sound iteration keeps it. -/
theorem Settled.of_foot
    {hs : List ScanState}
    {s' : ScanState}
    (hSettled : Settled host hs s)
    (hSize : SizeOk host s)
    (hFoot : scanBody host fsize s = .foot s') :
    Settled host (hs ++ [s]) s' := by
  have hLog :
      (hs ++ [s]).flatMap (keptAt host) =
        hs.flatMap (keptAt host) ++ keptAt host s := by
    simp
  refine ⟨?_, ?_⟩
  · rw [hLog]
    exact inOrder_of_foot hSize hFoot hSettled.order
  · intro e he
    rw [hLog] at he
    rw [mem_of_foot hFoot]
    rcases List.mem_append.mp he with hOld | hNew
    · rcases hSettled.entries e hOld with ⟨h, hMem, hAt⟩
      exact ⟨h, List.mem_append_left _ hMem,
        hAt.swapped (hSettled.order.behind e hOld)⟩
    · exact ⟨s, by simp, hNew, fun _ _ => rfl⟩

/- A run over sound headers settles all it stores. -/
theorem settled_of_trace
    {hs : List ScanState}
    (hTrace : (scanLoop host fsize).Trace (scanInit m) hs s)
    (hSize : ∀ h ∈ hs, SizeOk host h) :
    Settled host hs s := by
  refine hTrace.invariant
    (fun hs s =>
      (∀ h ∈ hs, SizeOk host h) → Settled host hs s)
    ?_ ?_ hSize
  · intro _
    exact ⟨⟨by simp, by simp, by simp⟩, by simp⟩
  · intro hs s s' hPrev hFoot hAll
    have hBefore : Settled host hs s :=
      hPrev (fun h hMem => hAll h (List.mem_append_left _ hMem))
    exact hBefore.of_foot (hAll s (by simp)) hFoot

------------------------------------------------------------
-- The End Of The Scan
------------------------------------------------------------

/- A body that leaves with a list has refused its message. -/
theorem leave_cases
    {r : ScanResult}
    (hLeave : scanBody host fsize s = .leave r) :
    r.traceList = [] ∨
      r = scanFinish
        { s with
          mem := swapMem host s
          tankbyte := s.tankbyte + 1 } := by
  rw [scanBody_eq] at hLeave
  split at hLeave
  · split at hLeave
    · cases hLeave
    · cases hLeave
      exact Or.inr rfl
  · simp only [scanMessage] at hLeave
    split at hLeave
    · cases hLeave
      exact Or.inl rfl
    · cases hLeave

/-
  Where a scan over sound headers ends, every entry of the
  lists it returns is settled.
-/
theorem settled_of_ends
    {r : ScanResult}
    (hSize :
      ∀ h, (scanLoop host fsize).Head (scanInit m) h →
        SizeOk host h)
    (hEnds : (scanLoop host fsize).Ends (scanInit m) r)
    {n : TraceNode}
    (hNode : n ∈ r.traceList)
    (he : e ∈ n.stored) :
    ∃ h,
      (scanLoop host fsize).Head (scanInit m) h ∧
        SettledAt host r.mem e h := by
  rcases DoLoop.exists_head_of_ends hEnds with
    ⟨s, hHead, hLast⟩
  rcases hHead.exists_trace with ⟨hs, hTrace, hGo⟩
  have hHeads := hTrace.head_of_mem
  have hSettled :=
    settled_of_trace hTrace (fun h hMem => hSize h (hHeads h hMem))
  rcases stored_perm_of_trace hTrace with ⟨hOk, hPerm⟩
  rcases hLast with hLeave | ⟨s', hFoot, _, rfl⟩
  · rcases leave_cases hLeave with hNone | rfl
    · rw [hNone] at hNode
      cases hNode
    · have hStored :=
        mem_stored_scanFinish
          (s := { s with
            mem := swapMem host s
            tankbyte := s.tankbyte + 1 })
          ⟨hOk.ordered, hOk.nodes⟩ hNode he
      have hLog := hPerm.mem_iff.mp hStored
      rcases hSettled.entries e hLog with ⟨h, hMem, hAt⟩
      exact ⟨h, hHeads h hMem,
        hAt.swapped (hSettled.order.behind e hLog)⟩
  · have hStep := hTrace.step hGo hFoot
    have hAll := hStep.head_of_mem
    have hAfter :=
      settled_of_trace hStep (fun h hMem => hSize h (hAll h hMem))
    rcases stored_perm_of_trace hStep with ⟨hOk', hPerm'⟩
    have hLog :=
      hPerm'.mem_iff.mp (mem_stored_scanFinish hOk' hNode he)
    rcases hAfter.entries e hLog with ⟨h, hMem, hAt⟩
    exact ⟨h, hAll h hMem, hAt⟩

end

end TankConvertor
