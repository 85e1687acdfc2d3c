import TankConvertor.Convert.Tank
import TankConvertor.Scan.Settled
import TankConvertor.Swap.Canonical

/-
  The headers that pass the checks of the swap routine.

  The checks reject by comparing, so whatever makes every
  comparison false passes: a count below zero, a rate that is
  zero, infinite or NaN, a time that is NaN.  Doubles are
  added and divided as the rationals they are here.

  Key definitions include:
    * `Sane` and `SaneInput`
    * `PreorderedBy`
    * `RunSane`

  Key theorems include:
    * `sane_iff`
    * `preordered_of_finite`
    * `accepted_sane_iff`
    * `negative_count_accepted`
-/

------------------------------------------------------------
-- Sane Headers
------------------------------------------------------------

namespace TankConvertor

open Trace2Header

attribute [local instance] Rounding.exact

/-
  A count that fits a message, finite times, a positive rate,
  and an end time near the one computed.
-/
structure Sane
    (o : ByteOrder)
    (k : SampleKind)
    (m : ByteMem)
    (p : Int) : Prop where
  count : 0 ≤ nsamp o m p
  fits :
    (sizeofTrace2Header : Int) + k.width * nsamp o m p ≤
      maxTracebufSiz
  starttime : (starttime o m p).IsFinite
  endtime : (endtime o m p).IsFinite
  samprate : (samprate o m p).IsFinite
  positive : 0 < (Trace2Header.samprate o m p).toRat
  endsNear :
    |(Trace2Header.endtime o m p).toRat -
        ((Trace2Header.starttime o m p).toRat +
          ((nsamp o m p - 1 : Int) : ℚ) /
            (Trace2Header.samprate o m p).toRat)| ≤
      5 / (Trace2Header.samprate o m p).toRat

/- What the checks do not look at. -/
structure SaneInput
    (o : ByteOrder)
    (m : ByteMem)
    (p : Int) : Prop where
  count : 0 ≤ nsamp o m p
  samprate : (samprate o m p).IsFinite
  positive : 0 < (Trace2Header.samprate o m p).toRat
  starttime : (starttime o m p).IsFinite
  endtime : endtime o m p ≠ .nan

section

variable {o : ByteOrder} {k : SampleKind}
variable {m : ByteMem} {p : Int}

/- An accepted header is sane when its numbers are. -/
theorem sane_iff
    (hFew : nsamp o m p ≤ k.capacity)
    (hGood : ¬ Inconsistent o m p) :
    Sane o k m p ↔ SaneInput o m p := by
  constructor
  · intro hSane
    refine ⟨hSane.count, hSane.samprate, hSane.positive,
      hSane.starttime, ?_⟩
    intro hNan
    have hEnd := hSane.endtime
    rw [hNan] at hEnd
    exact hEnd
  · intro hInput
    rcases (not_endtimeOff_iff hInput.count (wrap32_upper _)
        hInput.starttime hInput.samprate hInput.positive
        hInput.endtime).mp hGood with
      ⟨hEnd, hNear⟩
    refine ⟨hInput.count, ?_, hInput.starttime, hEnd,
      hInput.samprate, hInput.positive, hNear⟩
    have hBytes := SampleKind.width_mul_le hFew
    unfold sizeofTrace2Header maxTracebufSiz
    omega

end

------------------------------------------------------------
-- Times That Can Be Sorted
------------------------------------------------------------

/- The comparison is a total preorder on a list. -/
structure PreorderedBy
    {α : Type}
    (compare : α → α → Int)
    (xs : List α) : Prop where
  total :
    ∀ a ∈ xs, ∀ b ∈ xs, compare a b ≤ 0 ∨ compare b a ≤ 0
  trans :
    ∀ a ∈ xs, ∀ b ∈ xs, ∀ c ∈ xs,
      compare a b ≤ 0 → compare b c ≤ 0 → compare a c ≤ 0

/- Finite times are compared as the rationals they are. -/
theorem compareTime_le_iff
    {a b : TBuf}
    (ha : a.time.IsFinite)
    (hb : b.time.IsFinite) :
    compareTime a b ≤ 0 ↔ a.time.toRat ≤ b.time.toRat := by
  have hAfter : b.time < a.time ↔ ¬ a.time.toRat ≤ b.time.toRat := by
    rw [ExtRat.lt_iff_of_finite hb ha, not_le]
  unfold compareTime
  split_ifs with hLt hGt
  · simp [hAfter.mp hLt]
  · simpa using not_not.mp (fun h => hLt (hAfter.mpr h))
  · simpa using not_not.mp (fun h => hLt (hAfter.mpr h))

theorem preordered_of_finite
    {es : List TBuf}
    (hFinite : ∀ e ∈ es, e.time.IsFinite) :
    PreorderedBy compareTime es where
  total := by
    intro a ha b hb
    rw [compareTime_le_iff (hFinite a ha) (hFinite b hb),
      compareTime_le_iff (hFinite b hb) (hFinite a ha)]
    exact le_total _ _
  trans := by
    intro a ha b hb c hc
    rw [compareTime_le_iff (hFinite a ha) (hFinite b hb),
      compareTime_le_iff (hFinite b hb) (hFinite c hc),
      compareTime_le_iff (hFinite a ha) (hFinite c hc)]
    exact le_trans

------------------------------------------------------------
-- Accepted Messages
------------------------------------------------------------

/- The message that the routine leaves is a sane one. -/
def LeftSane
    (host : ByteOrder)
    (m : ByteMem)
    (p : Int) : Prop :=
  let m' := (swapWavemsg2Makelocal host m p).2
  ∃ k,
    kindOf (datatype0 m' p) (datatype1 m' p) =
        some (host, k) ∧
      Sane host k m' p

/- Its numbers are sane, in the order that it names. -/
def SaneMessage (m : ByteMem) (p : Int) : Prop :=
  ∃ o k,
    kindOf (datatype0 m p) (datatype1 m p) = some (o, k) ∧
      SaneInput o m p

section

variable {host o : ByteOrder} {k : SampleKind}
variable {m m' : ByteMem} {p : Int}

/- Numbers that read alike are sane together. -/
theorem saneInput_congr
    (hReads : ReadsAs host o m m' p) :
    SaneInput host m' p ↔ SaneInput o m p := by
  have hCount : 0 ≤ nsamp host m' p ↔ 0 ≤ nsamp o m p := by
    rw [hReads.nsamp]
  have hRate := hReads.samprate
  have hStart := hReads.starttime
  have hEnd := hReads.endtime
  constructor
  · intro h
    exact ⟨hCount.mp h.count, hRate ▸ h.samprate,
      hRate ▸ h.positive, hStart ▸ h.starttime,
      hEnd ▸ h.endtime⟩
  · intro h
    exact ⟨hCount.mpr h.count, hRate.symm ▸ h.samprate,
      hRate.symm ▸ h.positive, hStart.symm ▸ h.starttime,
      hEnd.symm ▸ h.endtime⟩

theorem inconsistent_of_readsAs
    (hReads : ReadsAs host o m m' p) :
    Inconsistent host m' p ↔ Inconsistent o m p := by
  unfold Inconsistent
  rw [hReads.nsamp, hReads.starttime, hReads.endtime,
    hReads.samprate]

/- One accepted message. -/
theorem leftSane_iff
    (hRc : (swapWavemsg2Makelocal host m p).1 = 0) :
    LeftSane host m p ↔ SaneMessage m p := by
  rcases success_cases (r := .wavemsg2) hRc with
    ⟨o, k, hKind, hFew, hGood⟩
  have hRun :
      swapWavemsg2Makelocal host m p =
        (0, localMessage host o m p (version0 m p) k) :=
    run_of_success (r := .wavemsg2) hKind hFew hGood host
  have hReads :=
    readsAs_localMessage host o m p (version0 m p) k
  rcases datatype_localMessage host (version0 m p) hKind with
    ⟨hLetter, hDigit⟩
  have hSane :
      Sane host k (localMessage host o m p (version0 m p) k) p ↔
        SaneInput o m p := by
    rw [← saneInput_congr hReads]
    apply sane_iff
    · rw [hReads.nsamp]
      exact hFew
    · rw [inconsistent_of_readsAs hReads]
      exact hGood
  unfold LeftSane SaneMessage
  simp only [hRun, hLetter, hDigit, kindOf_letter, hKind,
    Option.some.injEq, Prod.mk.injEq, true_and]
  constructor
  · rintro ⟨k', rfl, h⟩
    exact ⟨o, k, ⟨rfl, rfl⟩, hSane.mp h⟩
  · rintro ⟨o', k', ⟨rfl, rfl⟩, h⟩
    exact ⟨k, rfl, hSane.mpr h⟩

end

------------------------------------------------------------
-- Runs Of The Scan
------------------------------------------------------------

/-
  Every message accepted was left sane, the comparison of
  times is a total preorder on all that is stored, and the
  rate that a converter reads of a stored tracebuf, once the
  scan has ended, is one to divide by.
-/
structure RunSane
    (host : ByteOrder)
    (fsize : Nat)
    (m : ByteMem) : Prop where
  left :
    ∀ h, (scanLoop host fsize).Head (scanInit m) h →
      swapCode host h = 0 →
        LeftSane host h.mem h.tankbyte
  preordered :
    ∀ hs s, (scanLoop host fsize).Trace (scanInit m) hs s →
      PreorderedBy compareTime (storedTbufs s)
  divisors :
    ∀ r, (scanLoop host fsize).Ends (scanInit m) r →
      ∀ n ∈ r.traceList, ∀ p ∈ n.packets host r.mem,
        p.samprate.IsFinite ∧ 0 < p.samprate.toRat

section

variable {host : ByteOrder} {fsize : Nat}
variable {m : ByteMem} {s : ScanState} {e : TBuf}

/- An entry stored by an iteration has its end time. -/
theorem time_finite_of_keptAt
    (hLeft :
      swapCode host s = 0 → LeftSane host s.mem s.tankbyte)
    (he : e ∈ keptAt host s) :
    e.time.IsFinite := by
  unfold keptAt at he
  split at he
  · rename_i hKeeps
    rw [List.mem_singleton.mp he]
    rcases hLeft hKeeps.1 with ⟨k, _, hSane⟩
    exact hSane.endtime
  · cases he

/- The rate of a settled entry is the one that was checked. -/
theorem samprate_of_settled
    {h : ScanState}
    (hSettled : SettledAt host m e h)
    (hSize : SizeOk host h)
    (hLeft :
      swapCode host h = 0 → LeftSane host h.mem h.tankbyte) :
    (packetAt host m e).samprate.IsFinite ∧
      0 < (packetAt host m e).samprate.toRat := by
  rcases hSettled.eq with ⟨hEntry, hCode, _⟩
  have hOffset : e.offset = h.tankbyte := by
    rw [hEntry]
    rfl
  have hReach := hSettled.header_le_stop hSize
  unfold sizeofTrace2Header at hReach
  have hRate :
      (packetAt host m e).samprate =
        samprate host (swapMem host h) h.tankbyte := by
    change samprate host m e.offset = _
    rw [hOffset]
    unfold samprate
    rw [ByteMem.read_congr (fun i _ hHigh =>
      hSettled.bytes i (by push_cast at hHigh; omega))]
  rcases hLeft hCode with ⟨k, _, hSane⟩
  rw [hRate]
  exact ⟨hSane.samprate, hSane.positive⟩

/- What is sane as it is accepted stays so. -/
theorem runSane_of_sound
    (hSound :
      ∀ h, (scanLoop host fsize).Head (scanInit m) h →
        SizeOk host h ∧
          (swapCode host h = 0 →
            SaneMessage h.mem h.tankbyte)) :
    RunSane host fsize m := by
  have hLeft :
      ∀ h, (scanLoop host fsize).Head (scanInit m) h →
        swapCode host h = 0 →
          LeftSane host h.mem h.tankbyte := by
    intro h hHead hRc
    exact (leftSane_iff hRc).mpr ((hSound h hHead).2 hRc)
  refine ⟨hLeft, ?_, ?_⟩
  · intro hs s hTrace
    refine preordered_of_finite ?_
    intro e he
    have hLog := (stored_perm_of_trace hTrace).2.mem_iff.mp he
    rcases List.mem_flatMap.mp hLog with ⟨h, hMem, hKept⟩
    exact time_finite_of_keptAt
      (hLeft h (hTrace.head_of_mem h hMem)) hKept
  · intro r hEnds n hNode p hPacket
    rcases List.mem_map.mp hPacket with ⟨e, he, rfl⟩
    rcases settled_of_ends (fun h hHead => (hSound h hHead).1)
        hEnds hNode he with
      ⟨h, hHead, hSettled⟩
    exact samprate_of_settled hSettled (hSound h hHead).1
      (hLeft h hHead)

end

/-
  An accepted header is sane exactly when the numbers that
  the checks do not look at are.  A run in which they all
  are, and in which no header reaches back over what is
  stored, sorts the times it stores and leaves the converters
  rates to divide by.
-/
theorem accepted_sane_iff
    (host : ByteOrder) :
    (∀ m p,
      (swapWavemsg2Makelocal host m p).1 = 0 →
        (LeftSane host m p ↔ SaneMessage m p)) ∧
    ∀ fsize m,
      (RunSane host fsize m →
        ∀ h, (scanLoop host fsize).Head (scanInit m) h →
          swapCode host h = 0 →
            SaneMessage h.mem h.tankbyte) ∧
      ((∀ h, (scanLoop host fsize).Head (scanInit m) h →
          SizeOk host h ∧
            (swapCode host h = 0 →
              SaneMessage h.mem h.tankbyte)) →
        RunSane host fsize m) := by
  refine ⟨fun m p => leftSane_iff, ?_⟩
  intro fsize m
  refine ⟨?_, runSane_of_sound⟩
  intro hRun h hHead hRc
  exact (leftSane_iff hRc).mp (hRun.left h hHead hRc)

/- A tank of one header without samples is sane. -/
theorem accepted_sane_header :
    RunSane .little 64
      (mapTank
        (oneHeader (List.replicate 4 0) (List.replicate 8 0))
        (fun _ => 0)) := by
  let m :=
    mapTank
      (oneHeader (List.replicate 4 0) (List.replicate 8 0))
      (fun _ => 0)
  have hKind :
      kindOf (datatype0 m 0) (datatype1 m 0) =
        some (.little, .i4) := by decide +kernel
  refine ((accepted_sane_iff .little).2 64 m).2 ?_
  intro h hHead
  rw [eq_scanInit_of_head (by decide +kernel) hHead]
  constructor
  · intro o k hSame _
    cases Option.some.inj (hKind.symm.trans hSame)
    decide +kernel
  · intro _
    exact ⟨.little, .i4, hKind, by decide +kernel,
      by decide +kernel, by decide +kernel, by decide +kernel,
      by decide +kernel⟩

/- -16 samples are accepted. -/
theorem negative_count_accepted :
    (swapWavemsg2Makelocal .little
      (mapTank emptyMessageTank (fun _ => 0)) 0).1 = 0 ∧
    ¬ LeftSane .little
      (mapTank emptyMessageTank (fun _ => 0)) 0 := by
  refine ⟨by decide +kernel, ?_⟩
  rintro ⟨k, _, hSane⟩
  have hCount := hSane.count
  revert hCount
  decide +kernel

end TankConvertor
