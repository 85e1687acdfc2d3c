import TankConvertor.Scan.Nodes
import TankConvertor.Swap.Correctness

/-
  Progress of the scan: when an iteration moves the cursor
  forward, and what follows for the loop.

  Key definitions include:
    * `mapTank`
    * `nextTankbyte`
    * `MovesOn`

  Key theorems include:
    * `tankbyte_of_foot`
    * `lt_nextTankbyte_iff`
    * `scan_progress_iff`
-/

------------------------------------------------------------
-- Where An Iteration Moves The Cursor
------------------------------------------------------------

namespace TankConvertor

open Trace2Header

/- A tank mapped at 0 in memory that is otherwise `around`. -/
def mapTank
    (tank : List UInt8)
    (around : ByteMem) :
    ByteMem :=
  fun i =>
    if 0 ≤ i ∧ i < tank.length then tank.getD i.toNat 0
    else around i

/- The cursor once the iteration has passed its message. -/
def nextTankbyte [Rounding] (host : ByteOrder) (s : ScanState) : Int :=
  if swapCode host s = -1 then
    s.tankbyte + 1
  else
    s.tankbyte +
      (datalen host (swapMem host s) s.tankbyte +
        sizeofTrace2Header)

/- This is the cursor at the foot of the loop. -/
theorem tankbyte_of_foot
    [Rounding]
    {host : ByteOrder}
    {fsize : Nat}
    {s s' : ScanState}
    (hFoot : scanBody host fsize s = .foot s') :
    s'.tankbyte = nextTankbyte host s := by
  unfold nextTankbyte
  rcases foot_cases hFoot with ⟨hRc, _, rfl⟩ | ⟨hRc, _, rfl⟩
  · rw [if_pos hRc]
    rfl
  · rw [if_neg hRc]
    rfl

/-
  The header at the cursor names a known datatype and a count
  that fits, and the digits after the letter times the count,
  an `int`, come to more than -64; or the header is refused.
-/
def MovesOn [Rounding] (host : ByteOrder) (s : ScanState) : Prop :=
  ∀ o k,
    kindOf (datatype0 s.mem s.tankbyte)
        (datatype1 s.mem s.tankbyte) = some (o, k) →
      nsamp o s.mem s.tankbyte ≤ k.capacity →
        -64 <
          wrap32
            (bytePerSample (swapMem host s) s.tankbyte *
              nsamp o s.mem s.tankbyte)

/- The cursor moves forward exactly then. -/
theorem lt_nextTankbyte_iff
    [Rounding]
    (host : ByteOrder)
    (s : ScanState) :
    s.tankbyte < nextTankbyte host s ↔ MovesOn host s := by
  unfold nextTankbyte MovesOn
  by_cases hRc : swapCode host s = -1
  · rw [if_pos hRc]
    constructor
    · intro _ o k hKind hFew
      exact
        ((swapCode_ne_iff host s.mem s.tankbyte).mpr
          ⟨o, k, hKind, hFew⟩ hRc).elim
    · intro _
      omega
  · rw [if_neg hRc]
    rcases (swapCode_ne_iff host s.mem s.tankbyte).mp hRc with
      ⟨o, k, hKind, hFew⟩
    have hReads :
        nsamp host (swapMem host s) s.tankbyte =
          nsamp o s.mem s.tankbyte :=
      (readsAs_of_few hKind hFew).nsamp
    unfold datalen
    rw [hReads]
    constructor
    · intro hLt o' k' hKind' _
      rw [hKind] at hKind'
      cases hKind'
      unfold sizeofTrace2Header at hLt
      omega
    · intro h
      have hProduct := h o k hKind hFew
      unfold sizeofTrace2Header
      omega

------------------------------------------------------------
-- Progress And Termination
------------------------------------------------------------

/-
  Every iteration moves the cursor forward, and the loop
  ends.
-/
def Progresses
    [Rounding]
    (host : ByteOrder)
    (tank : List UInt8)
    (around : ByteMem) : Prop :=
  let L := scanLoop host tank.length
  let s₀ := scanInit (mapTank tank around)
  (∀ s, L.Head s₀ s → s.tankbyte < nextTankbyte host s) ∧
    ∃ r, L.Ends s₀ r

/- A cursor that always moves forward comes to the end. -/
theorem ends_of_forward
    [Rounding]
    {host : ByteOrder}
    {fsize : Nat}
    {s₀ : ScanState}
    (hForward :
      ∀ s, (scanLoop host fsize).Head s₀ s →
        s.tankbyte < nextTankbyte host s) :
    ∃ r, (scanLoop host fsize).Ends s₀ r := by
  apply DoLoop.ends_of_measure
    (fun s => ((fsize : Int) - s.tankbyte).toNat)
  intro s s' hHead hFoot hTest
  have hLt := hForward s hHead
  have hNext := tankbyte_of_foot hFoot
  have hInside : s'.tankbyte < fsize := by
    simpa [scanLoop] using hTest
  omega

/-
  The scan progresses exactly when no message at the cursor
  is let through with a size of zero or less.
-/
theorem scan_progress_iff
    [Rounding]
    (host : ByteOrder)
    (tank : List UInt8)
    (around : ByteMem) :
    Progresses host tank around ↔
      ∀ s,
        (scanLoop host tank.length).Head
            (scanInit (mapTank tank around)) s →
          MovesOn host s := by
  constructor
  · intro h s hHead
    exact (lt_nextTankbyte_iff host s).mp (h.1 s hHead)
  · intro h
    have hForward :
        ∀ s,
          (scanLoop host tank.length).Head
              (scanInit (mapTank tank around)) s →
            s.tankbyte < nextTankbyte host s :=
      fun s hHead => (lt_nextTankbyte_iff host s).mpr (h s hHead)
    exact ⟨hForward, ends_of_forward hForward⟩

------------------------------------------------------------
-- A Tank The Scan Never Leaves
------------------------------------------------------------

/-
  One little-endian header: `i4` samples, one per second,
  from time zero on, with the bytes of the count and of the
  end time.
-/
def oneHeader (nsamp endtime : List UInt8) : List UInt8 :=
  List.replicate 4 0 ++ nsamp ++ List.replicate 8 0 ++
    endtime ++ [0, 0, 0, 0, 0, 0, 0xF0, 0x3F] ++
    List.replicate 23 0 ++ [ch '2', ch '0', ch 'i', ch '4'] ++
    List.replicate 5 0

/- -16 samples that end at time zero. -/
def stuckTank : List UInt8 :=
  oneHeader [0xF0, 0xFF, 0xFF, 0xFF] (List.replicate 8 0)

attribute [local instance] Rounding.nearest

/- The loop stays at this header for ever. -/
theorem stuckTank_not_ends :
    ¬ ∃ r,
      (scanLoop .little stuckTank.length).Ends
        (scanInit (mapTank stuckTank (fun _ => 0))) r := by
  let m := mapTank stuckTank (fun _ => 0)
  have hKind :
      kindOf (datatype0 m 0) (datatype1 m 0) =
        some (.little, .i4) := by decide
  have hCount : nsamp .little m 0 = -16 := by decide
  have hBad : Inconsistent .little m 0 := by decide +kernel
  have hDatalen : datalen .little m 0 = -64 := by decide +kernel
  have hSwap : swapWavemsg2Makelocal .little m 0 = (-2, m) := by
    have hFew :
        nsamp .little m 0 ≤ SampleKind.i4.capacity := by
      rw [hCount]
      decide
    rw [swapWavemsg2Makelocal_of_inconsistent .little .little m
      0 hKind hFew hBad, localHeader_self]
  rintro ⟨r, hEnds⟩
  refine DoLoop.not_ends_of_invariant
    (fun s : ScanState => s.mem = m ∧ s.tankbyte = 0 ∧ ScanOk s)
    ⟨rfl, rfl, ScanOk.init m⟩ ?_ r hEnds
  rintro s ⟨hMem, hCursor, hOk⟩
  have hCode : swapCode .little s = -2 := by
    rw [swapCode, hMem, hCursor, hSwap]
  have hLeft : swapMem .little s = m := by
    rw [swapMem, hMem, hCursor, hSwap]
  -- the entry is not counted, and the list does not grow
  have hNot : ¬ Keeps (-2) (tbufAt .little s) := by
    rintro ⟨hZero, _⟩
    cases hZero
  have hFoot :=
    foot_of_done stuckTank.length hCode (by decide)
      (reallocFailed_of_not_keeps (hOk.tnodeFor _ _) hNot)
  have hStays :
      (passMessage .little (-2) (swapped .little s)).tankbyte =
        0 := by
    simp [passMessage, swapped, hLeft, hCursor, hDatalen,
      sizeofTrace2Header]
  refine ⟨_, hFoot, ?_, hLeft, hStays, hOk.of_foot hFoot⟩
  change decide (_ < (stuckTank.length : Int)) = true
  rw [hStays]
  rfl

end TankConvertor
