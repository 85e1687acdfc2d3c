import TankConvertor.Scan.Footprint

/-
  The scan depends on no byte outside its footprint, so a
  scan that stays inside the tank gives one result whatever
  lies around the tank.

  Key definitions include:
    * `SameIter`

  Key theorems include:
    * `swap_congr`
    * `scanBody_congr`
    * `scan_ignores_around`
-/

------------------------------------------------------------
-- The Swap Routine
------------------------------------------------------------

namespace TankConvertor

open Trace2Header ByteMem

section Swap

variable {host o : ByteOrder} {k : SampleKind}
variable {m m' : ByteMem} {p : Int} {S : Set Int}

/- Without a letter the second character does not matter. -/
theorem kindOf_of_no_letter
    {d₀ : UInt8}
    (d₁ : UInt8)
    (hNo : ¬ IsLetter d₀) :
    kindOf d₀ d₁ = none := by
  cases hKind : kindOf d₀ d₁ with
  | none => rfl
  | some ok => exact (hNo (isLetter_of_kind hKind)).elim

/- Agreement on the front gives the same datatype. -/
theorem kindOf_congr
    [Rounding]
    (hIn : swapFootprint host m p ⊆ S)
    (hAgree : AgreeOn S m m') :
    kindOf (datatype0 m' p) (datatype1 m' p) =
      kindOf (datatype0 m p) (datatype1 m p) := by
  have hFirst : datatype0 m p = datatype0 m' p := by
    apply hAgree
    apply hIn
    simp [swapFootprint]
  by_cases hLetter : IsLetter (datatype0 m p)
  · have hSecond : datatype1 m p = datatype1 m' p := by
      apply hAgree
      apply hIn
      simp [swapFootprint, hLetter]
    rw [hFirst, hSecond]
  · rw [kindOf_of_no_letter _ hLetter,
      kindOf_of_no_letter _ (hFirst ▸ hLetter)]

theorem inconsistent_congr
    [Rounding]
    (hIn : Set.Ico (p + 4) (p + 32) ⊆ S)
    (hAgree : AgreeOn S m m') :
    Inconsistent o m' p ↔ Inconsistent o m p := by
  unfold Inconsistent nsamp starttime samprate endtime
  rw [hAgree.read_within hIn (by push_cast; omega),
    hAgree.read_within hIn (by push_cast; omega),
    hAgree.read_within hIn (by push_cast; omega),
    hAgree.read_within hIn (by push_cast; omega)]

theorem nsamp_congr
    (hIn : Set.Ico (p + 4) (p + 8) ⊆ S)
    (hAgree : AgreeOn S m m') :
    nsamp o m' p = nsamp o m p := by
  unfold nsamp
  rw [hAgree.read_within hIn (by push_cast; omega)]

/- The number of samples is read with the header. -/
theorem count_subset_header :
    Set.Ico (p + 4) (p + 8) ⊆ headerFootprint host o m p := by
  intro i hi
  have hLow := hi.1
  have hHigh := hi.2
  unfold headerFootprint
  split
  · constructor <;> omega
  · left
    constructor <;> omega

/- The header is made local alike. -/
theorem localHeader_congr
    (hIn : headerFootprint host o m p ⊆ S)
    (hVersion : p + 55 ∈ S)
    (hAgree : AgreeOn S m m') :
    AgreeOn S (localHeader host o m p (version0 m p))
      (localHeader host o m' p (version0 m' p)) := by
  have hZero : version0 m' p = version0 m p :=
    (hAgree _ hVersion).symm
  unfold localHeader
  unfold headerFootprint at hIn
  by_cases hSame : o = host
  · rw [if_pos hSame, if_pos hSame]
    exact hAgree
  · rw [if_neg hSame] at hIn
    rw [if_neg hSame, if_neg hSame, hZero]
    rw [Set.union_subset_iff] at hIn
    have hSub (q : Int) (n : Nat)
        (hq : p ≤ q ∧ q + n ≤ p + 32) :
        Set.Ico q (q + n) ⊆ S := by
      intro i hi
      have hLow := hi.1
      have hHigh := hi.2
      apply hIn.1
      constructor <;> omega
    have hNumbers :
        AgreeOn S
          (((((m.swapAt p 4).swapAt (p + 4) 4).swapAt
            (p + 8) 8).swapAt (p + 16) 8).swapAt (p + 24) 8)
          (((((m'.swapAt p 4).swapAt (p + 4) 4).swapAt
            (p + 8) 8).swapAt (p + 16) 8).swapAt
              (p + 24) 8) := by
      refine ((((hAgree.swapAt ?_).swapAt ?_).swapAt ?_).swapAt
        ?_).swapAt ?_ <;>
        exact hSub _ _ (by push_cast; omega)
    unfold swapHeader
    simp only []
    by_cases hTwo : version0 m p = ch '2'
    · rw [if_pos hTwo, Set.union_subset_iff] at hIn
      rw [if_pos hTwo, if_pos hTwo]
      have hMem : p + 56 ∈ S := hIn.2.1 rfl
      have hOne := hNumbers _ hMem
      have hKeep :
          version1
            (((((m.swapAt p 4).swapAt (p + 4) 4).swapAt
              (p + 8) 8).swapAt (p + 16) 8).swapAt (p + 24) 8)
            p = version1 m p := by
        unfold version1
        simp (disch := omega) only [swapAt_of_outside]
      unfold version1 at hKeep hIn ⊢
      rw [← hOne, hKeep]
      by_cases hFactor : m (p + 56) = ch '1'
      · rw [if_pos hFactor] at hIn
        rw [if_pos hFactor, if_pos hFactor]
        apply hNumbers.swapAt
        intro i hi
        have hHigh := hi.2
        exact hIn.2.2 ⟨hi.1, by push_cast at hHigh; omega⟩
      · rw [if_neg hFactor, if_neg hFactor]
        exact hNumbers
    · rw [if_neg hTwo, if_neg hTwo]
      exact hNumbers

/-
  The routine returns the same code, and leaves memories that
  agree, from memories that agree on what it touches.
-/
theorem swap_congr
    [Rounding]
    (hIn : swapFootprint host m p ⊆ S)
    (hAgree : AgreeOn S m m') :
    (swapWavemsg2Makelocal host m' p).1 =
        (swapWavemsg2Makelocal host m p).1 ∧
      AgreeOn S (swapWavemsg2Makelocal host m p).2
        (swapWavemsg2Makelocal host m' p).2 := by
  have hSame := kindOf_congr hIn hAgree
  unfold swapWavemsg2Makelocal
  cases hKind : kindOf (datatype0 m p) (datatype1 m p) with
  | none =>
      rw [hKind] at hSame
      rw [makelocalWavemsgVer_of_unknown host m p _ hKind,
        makelocalWavemsgVer_of_unknown host m' p _ hSame]
      exact ⟨rfl, hAgree⟩
  | some ok =>
      obtain ⟨o, k⟩ := ok
      rw [hKind] at hSame
      have hVersion : p + 55 ∈ S := by
        apply hIn
        simp [swapFootprint]
      unfold swapFootprint at hIn
      rw [hKind, Set.union_subset_iff] at hIn
      have hKnown := hIn.2
      simp only [knownFootprint] at hKnown
      rw [Set.union_subset_iff] at hKnown
      have hHeader :=
        localHeader_congr hKnown.1 hVersion hAgree
      have hCount : nsamp o m' p = nsamp o m p :=
        nsamp_congr (count_subset_header.trans hKnown.1) hAgree
      rw [makelocalWavemsgVer_of_kind host o m p _ hKind,
        makelocalWavemsgVer_of_kind host o m' p _ hSame,
        hCount]
      by_cases hMany : (k.capacity : Int) < nsamp o m p
      · rw [if_pos hMany, if_pos hMany]
        exact ⟨rfl, hHeader⟩
      · rw [if_neg hMany, if_neg hMany]
        have hRest := hKnown.2
        rw [if_neg hMany, Set.union_subset_iff] at hRest
        have hBoth := inconsistent_congr (o := o) hRest.1 hAgree
        by_cases hBad : Inconsistent o m p
        · rw [if_pos hBad, if_pos (hBoth.mpr hBad)]
          exact ⟨rfl, hHeader⟩
        · rw [if_neg hBad,
            if_neg (fun h => hBad (hBoth.mp h))]
          refine ⟨rfl, ?_⟩
          have hData := hRest.2
          rw [if_neg hBad] at hData
          unfold localMessage
          by_cases hLocal : o = host
          · rw [if_pos hLocal, if_pos hLocal]
            exact hAgree
          · rw [if_neg hLocal] at hData
            rw [if_neg hLocal, if_neg hLocal, hCount]
            exact ((hHeader.swapWords hData).set _ _).set _ _

end Swap

------------------------------------------------------------
-- One Iteration
------------------------------------------------------------

section Iteration

variable {host : ByteOrder} {S : Set Int}

/- The same step, over memories that agree on `S`. -/
def SameIter (S : Set Int) :
    Iter ScanState ScanResult →
      Iter ScanState ScanResult → Prop
| .foot a, .foot b =>
    ∃ m', b = { a with mem := m' } ∧ AgreeOn S a.mem m'
| .leave a, .leave b =>
    b.ret = a.ret ∧ b.traceList = a.traceList ∧
      AgreeOn S a.mem b.mem
| _, _ => False

/- The codes of the message are read alike. -/
theorem tkeyOf_congr
    {m m' : ByteMem}
    {p : Int}
    (hIn : Set.Ico (p + 32) (p + 55) ⊆ S)
    (hAgree : AgreeOn S m m') :
    tkeyOf m' p = tkeyOf m p := by
  unfold tkeyOf Trace2Header.sta Trace2Header.chan
    Trace2Header.net Trace2Header.loc
  rw [hAgree.read_within hIn (by push_cast; omega),
    hAgree.read_within hIn (by push_cast; omega),
    hAgree.read_within hIn (by push_cast; omega),
    hAgree.read_within hIn (by push_cast; omega)]

/- So is the number of bytes in a sample. -/
theorem bytePerSample_congr
    {m m' : ByteMem}
    {p : Int}
    (hDigit : isdigit (m (p + 58)))
    (hIn : m.upTo isNoDigit (p + 58) ⊆ S)
    (hAgree : AgreeOn S m m') :
    bytePerSample m' p = bytePerSample m p := by
  have hRun :=
    takeWhile_read_of_agreeOn
      (fun i hi => hAgree i (hIn hi)) 20
  unfold bytePerSample
  rw [read_succ m] at hRun ⊢
  refine (atoi_congr hDigit ?_).symm
  simpa [isNoDigit] using hRun

variable (host) in
/- And the entry that is made of it. -/
theorem tbufOf_congr
    {m m' : ByteMem}
    {p : Int}
    (hDigit : isdigit (m (p + 58)))
    (hEnd : Set.Ico (p + 16) (p + 24) ⊆ S)
    (hCount : Set.Ico (p + 4) (p + 8) ⊆ S)
    (hNumber : m.upTo isNoDigit (p + 58) ⊆ S)
    (hAgree : AgreeOn S m m') :
    datalen host m' p = datalen host m p ∧
      tbufOf host m' p = tbufOf host m p := by
  have hLength : datalen host m' p = datalen host m p := by
    unfold datalen
    rw [bytePerSample_congr hDigit hNumber hAgree,
      nsamp_congr hCount hAgree]
  have hTime : endtime host m' p = endtime host m p := by
    unfold endtime
    rw [hAgree.read_within hEnd (by push_cast; omega)]
  refine ⟨hLength, ?_⟩
  unfold tbufOf
  rw [hLength, hTime]

/- Passing a message does the same to the tree. -/
theorem scanMessage_congr
    {rc : Int}
    {s : ScanState}
    {m' : ByteMem}
    (hAgree : AgreeOn S s.mem m')
    (hKey : tkeyOf m' s.tankbyte = tkeyOf s.mem s.tankbyte)
    (hLength :
      datalen host m' s.tankbyte = datalen host s.mem s.tankbyte)
    (hEntry :
      tbufOf host m' s.tankbyte =
        tbufOf host s.mem s.tankbyte) :
    SameIter S (scanMessage host rc s)
      (scanMessage host rc { s with mem := m' }) := by
  simp only [scanMessage, hKey, hEntry]
  split
  · exact ⟨rfl, rfl, hAgree⟩
  · refine ⟨m', ?_, hAgree⟩
    simp only [passMessage, hKey, hEntry, hLength]

/- A message let through has a digit at `datatype[1]`. -/
theorem isdigit_swapMem
    [Rounding]
    {s : ScanState}
    (hRc : swapCode host s ≠ -1) :
    isdigit (swapMem host s (s.tankbyte + 58)) := by
  have hWidth : ∀ k : SampleKind, isdigit k.digit := by
    intro k
    cases k <;> rfl
  unfold swapCode at hRc
  unfold swapMem
  rcases swapWavemsg2Makelocal_cases host s.mem s.tankbyte with
    ⟨_, hRes⟩ | ⟨o, k, hKind, hExit⟩
  · rw [hRes] at hRc
    exact (hRc rfl).elim
  · have hOld :
        s.mem (s.tankbyte + 58) = k.digit :=
      (eq_of_kindOf hKind).2
    rcases hExit with ⟨_, hRes⟩ | ⟨_, _, hRes⟩ | ⟨_, _, hRes⟩
    · rw [hRes] at hRc
      exact (hRc rfl).elim
    · rw [hRes]
      simp only []
      rw [localHeader_of_outside _ _ _ _ _ (by omega), hOld]
      exact hWidth k
    · rw [hRes]
      unfold localMessage
      simp only []
      split
      · rw [hOld]
        exact hWidth k
      · unfold swapData
        rw [set_self]
        cases k <;> rfl

/-
  One iteration does the same over memories that agree on
  what it touches.
-/
theorem scanBody_congr
    [Rounding]
    {fsize : Nat}
    {s : ScanState}
    {m' : ByteMem}
    (hIn : footprint host s ⊆ S)
    (hAgree : AgreeOn S s.mem m') :
    SameIter S (scanBody host fsize s)
      (scanBody host fsize { s with mem := m' }) := by
  let s' : ScanState := { s with mem := m' }
  unfold footprint at hIn
  rw [Set.union_subset_iff] at hIn
  rcases swap_congr hIn.1 hAgree with ⟨hCode, hMem⟩
  change swapCode host s' = swapCode host s at hCode
  change AgreeOn S (swapMem host s) (swapMem host s') at hMem
  rw [scanBody_eq, scanBody_eq host fsize s', hCode]
  by_cases hRc : swapCode host s = -1
  · rw [if_pos hRc, if_pos hRc]
    by_cases hLt : s.tankbyte + 1 < fsize
    · rw [if_pos hLt, if_pos hLt]
      exact ⟨swapMem host s', rfl, hMem⟩
    · rw [if_neg hLt, if_neg hLt]
      exact ⟨rfl, rfl, hMem⟩
  · rw [if_neg hRc] at hIn
    have hRest := hIn.2
    unfold messageFootprint at hRest
    rw [Set.union_subset_iff, Set.union_subset_iff,
      Set.union_subset_iff, Set.union_subset_iff] at hRest
    rcases hRest with
      ⟨⟨⟨⟨_, hEnd⟩, hCount⟩, hNumber⟩, hCodes⟩
    rcases tbufOf_congr host (isdigit_swapMem hRc) hEnd hCount
        hNumber hMem with
      ⟨hLength, hEntry⟩
    have hSwapped :
        swapped host s' =
          { swapped host s with mem := swapMem host s' } := by
      unfold swapped
      rw [hCode]
    rw [if_neg hRc, if_neg hRc, hSwapped]
    exact
      scanMessage_congr (s := swapped host s) hMem
        (tkeyOf_congr hCodes hMem) hLength hEntry

end Iteration

------------------------------------------------------------
-- The Whole Scan
------------------------------------------------------------

/- Runs over memories that agree on the tank do the same. -/
theorem run_congr
    [Rounding]
    {host : ByteOrder}
    {fsize n : Nat}
    {s : ScanState}
    {m' : ByteMem}
    {r : ScanResult}
    (hInside :
      ∀ s', (scanLoop host fsize).Head s s' →
        footprint host s' ⊆ Set.Ico 0 (fsize : Int))
    (hAgree : AgreeOn (Set.Ico 0 (fsize : Int)) s.mem m')
    (hRun : (scanLoop host fsize).run n s = some r) :
    ∃ r',
      (scanLoop host fsize).run n { s with mem := m' } =
          some r' ∧
        r'.ret = r.ret ∧ r'.traceList = r.traceList ∧
        AgreeOn (Set.Ico 0 (fsize : Int)) r.mem r'.mem := by
  induction n generalizing s m' with
  | zero => simp [DoLoop.run] at hRun
  | succ n ih =>
      let L := scanLoop host fsize
      let t : ScanState := { s with mem := m' }
      have hSame :
          SameIter (Set.Ico 0 (fsize : Int)) (L.body s)
            (L.body t) :=
        scanBody_congr (hInside s DoLoop.Head.entry) hAgree
      rw [DoLoop.run] at hRun ⊢
      cases hBody : L.body s with
      | leave r₁ =>
          cases hBody' : L.body t with
          | leave r₂ =>
              rw [hBody] at hRun hSame
              rw [hBody'] at hSame
              cases hRun
              exact ⟨r₂, rfl, hSame⟩
          | foot s₂ =>
              rw [hBody, hBody'] at hSame
              exact hSame.elim
      | foot s₁ =>
          cases hBody' : L.body t with
          | leave r₂ =>
              rw [hBody, hBody'] at hSame
              exact hSame.elim
          | foot s₂ =>
              rw [hBody] at hRun hSame
              rw [hBody'] at hSame
              rcases hSame with ⟨m₂, rfl, hAgree₂⟩
              simp only [] at hRun ⊢
              by_cases hTest :
                  (scanLoop host fsize).test s₁ = true
              · have hTest' :
                    (scanLoop host fsize).test
                      { s₁ with mem := m₂ } = true := hTest
                rw [if_pos hTest] at hRun
                rw [if_pos hTest']
                refine ih ?_ hAgree₂ hRun
                intro s' hHead
                exact hInside s'
                  ((DoLoop.Head.entry.again hBody hTest).trans
                    hHead)
              · have hTest' :
                    ¬ (scanLoop host fsize).test
                      { s₁ with mem := m₂ } = true := hTest
                rw [if_neg hTest] at hRun
                rw [if_neg hTest']
                cases hRun
                exact ⟨_, rfl, rfl, rfl, hAgree₂⟩

/-
  A scan that stays inside the tank returns the same, lists
  the same and leaves the same tank whatever is around it.
-/
theorem scan_ignores_around
    [Rounding]
    {host : ByteOrder}
    {tank : List UInt8}
    {around : ByteMem}
    (around' : ByteMem)
    {fuel : Nat}
    {r : ScanResult}
    (hInside : StaysInside host tank around)
    (hRun :
      scanTracebuf host tank.length fuel
        (mapTank tank around) = some r) :
    ∃ r',
      scanTracebuf host tank.length fuel
          (mapTank tank around') = some r' ∧
        r'.ret = r.ret ∧ r'.traceList = r.traceList ∧
        AgreeOn (Set.Ico 0 (tank.length : Int))
          r.mem r'.mem := by
  refine run_congr (fun s hHead => (hInside.1 s hHead).1) ?_ hRun
  intro i hi
  change mapTank tank around i = mapTank tank around' i
  unfold mapTank
  rw [if_pos ⟨hi.1, hi.2⟩, if_pos ⟨hi.1, hi.2⟩]

end TankConvertor
