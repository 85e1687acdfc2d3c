import TankConvertor.Library.Footprint
import TankConvertor.Scan.Disjoint

/-
  The bytes that one iteration of the scan reads or swaps,
  and when they all lie in the tank.

  Key definitions include:
    * `swapFootprint`
    * `footprint`
    * `KnownFits` and `Fits`

  Key theorems include:
    * `inside_iff_fits`
    * `scan_stays_inside_iff`
-/

------------------------------------------------------------
-- Footprint Of An Iteration
------------------------------------------------------------

namespace TankConvertor

open Trace2Header

/- The letters after which the second character is read. -/
def IsLetter (d₀ : UInt8) : Prop :=
  d₀ = ch 's' ∨ d₀ = ch 'i' ∨ d₀ = ch 't' ∨ d₀ = ch 'f'

instance (d₀ : UInt8) : Decidable (IsLetter d₀) := by
  unfold IsLetter
  infer_instance

/- A terminator, and a character that ends a number. -/
def isNul (b : UInt8) : Bool := b = 0
def isNoDigit (b : UInt8) : Bool := !isdigit b

/- The four codes, printed with `%s`. -/
def codeStrings (m : ByteMem) (p : Int) : Set Int :=
  m.upTo isNul (p + 32) ∪ m.upTo isNul (p + 48) ∪
    m.upTo isNul (p + 39) ∪ m.upTo isNul (p + 52)

/- The numbers swapped in a foreign header, else the count. -/
def headerFootprint
    (host o : ByteOrder)
    (m : ByteMem)
    (p : Int) :
    Set Int :=
  if o = host then
    Set.Ico (p + 4) (p + 8)
  else
    Set.Ico p (p + 32) ∪
      if version0 m p = ch '2' then
        {p + 56} ∪
          if version1 m p = ch '1' then
            Set.Ico (p + 60) (p + 64)
          else
            ∅
      else
        ∅

/-
  What `makelocal_wavemsg_ver` touches once it knows the
  datatype: header, count, then the texts of a complaint or
  the samples it swaps.
-/
def knownFootprint
    [Rounding]
    (host o : ByteOrder)
    (k : SampleKind)
    (m : ByteMem)
    (p : Int) :
    Set Int :=
  let m₁ := localHeader host o m p (version0 m p)
  headerFootprint host o m p ∪
    if (k.capacity : Int) < nsamp o m p then
      codeStrings m₁ p ∪ m₁.upTo isNul (p + 57)
    else
      Set.Ico (p + 4) (p + 32) ∪
        if Inconsistent o m p then codeStrings m₁ p
        else if o = host then ∅
        else
          Set.Ico (p + 64)
            (p + 64 + (nsamp o m p).toNat * k.width)

/- What `swap_wavemsg2_makelocal` touches. -/
def swapFootprint
    [Rounding]
    (host : ByteOrder)
    (m : ByteMem)
    (p : Int) :
    Set Int :=
  ({p + 55, p + 57} : Set Int) ∪
    (if IsLetter (datatype0 m p) then {p + 58} else ∅) ∪
    match kindOf (datatype0 m p) (datatype1 m p) with
    | none => ∅
    | some (o, k) => knownFootprint host o k m p

/-
  What the rest of an iteration touches: the codes and times
  it prints after skipped bytes, the count, the end time, the
  datatype with its number, and the codes it copies.
-/
def messageFootprint
    [Rounding]
    (host : ByteOrder)
    (s : ScanState) :
    Set Int :=
  (if swapCode host s = 0 ∧ 0 < s.skipbyte then
    codeStrings (swapMem host s) s.tankbyte ∪
      Set.Ico (s.tankbyte + 8) (s.tankbyte + 24)
  else
    ∅) ∪
    Set.Ico (s.tankbyte + 16) (s.tankbyte + 24) ∪
    Set.Ico (s.tankbyte + 4) (s.tankbyte + 8) ∪
    (swapMem host s).upTo isNoDigit (s.tankbyte + 58) ∪
    Set.Ico (s.tankbyte + 32) (s.tankbyte + 55)

/- What one iteration touches. -/
def footprint
    [Rounding]
    (host : ByteOrder)
    (s : ScanState) :
    Set Int :=
  swapFootprint host s.mem s.tankbyte ∪
    if swapCode host s = -1 then ∅
    else messageFootprint host s

------------------------------------------------------------
-- Bytes After The Codes
------------------------------------------------------------

section AfterCodes

variable {host o : ByteOrder} {k : SampleKind}
variable {m : ByteMem} {p q e : Int} {P : UInt8 → Bool}

/- A foreign version 21 header has its factor in the tank. -/
def FactorFits
    (host o : ByteOrder)
    (m : ByteMem)
    (p e : Int) : Prop :=
  o ≠ host → version0 m p = ch '2' →
    version1 m p = ch '1' → p + 64 ≤ e

/- Making the header local moves no byte out of the tank. -/
theorem hasIn_localHeader
    (hLow : p + 32 ≤ q)
    (hHigh : q ≤ p + 60)
    (hFactor : FactorFits host o m p e) :
    (localHeader host o m p (version0 m p)).HasIn P q e ↔
      m.HasIn P q e := by
  unfold localHeader
  by_cases hSame : o = host
  · rw [if_pos hSame]
  · rw [if_neg hSame]
    by_cases hV : version0 m p = ch '2' ∧ version1 m p = ch '1'
    · have hFits := hFactor hSame hV.1 hV.2
      rw [← ByteMem.hasIn_swapAt (m := m) (p := p + 60)
        (n := 4) (by omega) (by push_cast; omega)]
      apply ByteMem.hasIn_congr
      intro i hi _
      rw [hV.1]
      exact swapHeader_of_factor m (by omega) hV.2
    · apply ByteMem.hasIn_congr
      intro i hi _
      exact swapHeader_of_tail m (by omega) hV

/- Nor does making the whole message local. -/
theorem hasIn_localMessage
    (hKind :
      kindOf (datatype0 m p) (datatype1 m p) = some (o, k))
    (hLow : p + 32 ≤ q)
    (hHigh : q ≤ p + 58)
    (hLetter :
      q ≤ p + 57 →
        P (datatype0 m p) = false ∧ P (k.letter host) = false)
    (hDigit : P k.digit = false)
    (hFactor : FactorFits host o m p e)
    (hSamples :
      o ≠ host → 0 < nsamp o m p →
        p + 64 + (nsamp o m p).toNat * k.width ≤ e) :
    (localMessage host o m p (version0 m p) k).HasIn P q e ↔
      m.HasIn P q e := by
  unfold localMessage
  by_cases hSame : o = host
  · rw [if_pos hSame]
  · rw [if_neg hSame]
    have hHeader (i : Int) (hi : p + 32 ≤ i ∧ i < p + 60) :
        localHeader host o m p (version0 m p) i = m i :=
      localHeader_of_outside host o m p _ (by omega)
    have hWords (i : Int) (hi : p + 32 ≤ i ∧ i < p + 60) :
        (localHeader host o m p (version0 m p)).swapWords
          (samples p) k.width (nsamp o m p).toNat i = m i := by
      rw [ByteMem.swapWords_of_outside, hHeader i hi]
      left
      unfold samples
      omega
    have hD : datatype1 m p = k.digit := (eq_of_kindOf hKind).2
    have hNew : ch '0' + UInt8.ofNat k.width = k.digit := by
      cases k <;> rfl
    simp only [swapData]
    rw [ByteMem.hasIn_set, ByteMem.hasIn_set,
      ← hasIn_localHeader hLow (by omega) hFactor]
    · by_cases hPos : 0 < nsamp o m p
      · exact ByteMem.hasIn_swapWords
          (by unfold samples; omega) (hSamples hSame hPos)
      · have hZero : (nsamp o m p).toNat = 0 := by omega
        rw [hZero]
        exact Iff.rfl
    · intro hq
      rw [hWords (p + 57) (by omega)]
      exact hLetter hq
    · intro _
      rw [ByteMem.set_of_ne _ _ (by omega),
        hWords (p + 58) (by omega), hNew]
      refine ⟨?_, hDigit⟩
      rw [← hDigit, ← hD]
      rfl

/- Terminators and numbers end where they ended before. -/
theorem hasIn_codes_localMessage
    (hKind :
      kindOf (datatype0 m p) (datatype1 m p) = some (o, k))
    (hFactor : FactorFits host o m p e)
    (hSamples :
      o ≠ host → 0 < nsamp o m p →
        p + 64 + (nsamp o m p).toNat * k.width ≤ e) :
    let m' := localMessage host o m p (version0 m p) k
    (m'.HasIn isNul (p + 52) e ↔ m.HasIn isNul (p + 52) e) ∧
      (m'.HasIn isNoDigit (p + 58) e ↔
        m.HasIn isNoDigit (p + 58) e) := by
  constructor
  · apply hasIn_localMessage hKind (by omega) (by omega) _ _
      hFactor hSamples
    · intro _
      rw [(eq_of_kindOf hKind).1]
      cases o <;> cases host <;> cases k <;> decide
    · cases k <;> decide
  · apply hasIn_localMessage hKind (by omega) (by omega) _ _
      hFactor hSamples
    · intro hLe
      omega
    · cases k <;> decide

end AfterCodes

------------------------------------------------------------
-- When An Iteration Stays In The Tank
------------------------------------------------------------

/- The data length that the scan derives from the message. -/
def dataLength
    [Rounding]
    (host o : ByteOrder)
    (s : ScanState) :
    Int :=
  wrap32
    (bytePerSample (swapMem host s) s.tankbyte *
      nsamp o s.mem s.tankbyte)

/-
  What a message of a known datatype needs of a tank of
  `fsize` bytes, exit by exit.
-/
structure KnownFits
    [Rounding]
    (host o : ByteOrder)
    (k : SampleKind)
    (fsize : Nat)
    (s : ScanState) : Prop where
  header : (if o = host then -4 else 0) ≤ s.tankbyte
  factor : FactorFits host o s.mem s.tankbyte fsize
  refused :
    k.capacity < nsamp o s.mem s.tankbyte →
      s.mem.HasIn isNul (s.tankbyte + 57) fsize
  number :
    nsamp o s.mem s.tankbyte ≤ k.capacity →
      s.mem.HasIn isNoDigit (s.tankbyte + 58) fsize
  printed :
    nsamp o s.mem s.tankbyte ≤ k.capacity →
      Inconsistent o s.mem s.tankbyte ∨ 0 < s.skipbyte →
        s.mem.HasIn isNul (s.tankbyte + 52) fsize
  samples :
    nsamp o s.mem s.tankbyte ≤ k.capacity →
      ¬ Inconsistent o s.mem s.tankbyte →
        o ≠ host → 0 < nsamp o s.mem s.tankbyte →
          s.tankbyte + 64 +
            (nsamp o s.mem s.tankbyte).toNat * k.width ≤ fsize
  stored :
    nsamp o s.mem s.tankbyte ≤ k.capacity →
      ¬ Inconsistent o s.mem s.tankbyte →
        -64 ≤ dataLength host o s →
          dataLength host o s ≤ tracedataMaxSize →
            0 ≤ s.tankbyte ∧
              s.tankbyte + 64 + dataLength host o s ≤ fsize

/- What the message under the cursor needs of the tank. -/
structure Fits
    [Rounding]
    (host : ByteOrder)
    (fsize : Nat)
    (s : ScanState) : Prop where
  front : -55 ≤ s.tankbyte ∧ s.tankbyte + 58 ≤ fsize
  letter :
    IsLetter (datatype0 s.mem s.tankbyte) →
      s.tankbyte + 59 ≤ fsize
  known :
    ∀ o k,
      kindOf (datatype0 s.mem s.tankbyte)
          (datatype1 s.mem s.tankbyte) = some (o, k) →
        KnownFits host o k fsize s

/- The iteration touches only the tank, and stores it only. -/
def Inside
    [Rounding]
    (host : ByteOrder)
    (fsize : Nat)
    (s : ScanState) : Prop :=
  footprint host s ⊆ Set.Ico 0 (fsize : Int) ∧
    ∀ e ∈ keptAt host s, 0 ≤ e.offset ∧ e.stop ≤ fsize

section Subsets

variable {host o : ByteOrder} {k : SampleKind}
variable {m : ByteMem} {p e : Int}

/- A known datatype begins with a letter. -/
theorem isLetter_of_kind
    {d₀ d₁ : UInt8}
    (hKind : kindOf d₀ d₁ = some (o, k)) :
    IsLetter d₀ := by
  rw [(eq_of_kindOf hKind).1]
  cases o <;> cases k <;> decide

theorem codeStrings_subset_iff
    (hLow : 0 ≤ p + 32) :
    codeStrings m p ⊆ Set.Ico 0 e ↔
      m.HasIn isNul (p + 52) e := by
  unfold codeStrings
  rw [Set.union_subset_iff, Set.union_subset_iff,
    Set.union_subset_iff,
    ByteMem.upTo_subset_iff (by omega),
    ByteMem.upTo_subset_iff (by omega),
    ByteMem.upTo_subset_iff (by omega),
    ByteMem.upTo_subset_iff (by omega)]
  constructor
  · intro h
    exact h.2
  · intro h
    exact ⟨⟨⟨h.mono (by omega), h.mono (by omega)⟩,
      h.mono (by omega)⟩, h⟩

theorem headerFootprint_subset_iff
    (hTank : p + 59 ≤ e) :
    headerFootprint host o m p ⊆ Set.Ico 0 e ↔
      (if o = host then -4 else 0) ≤ p ∧
        FactorFits host o m p e := by
  unfold headerFootprint FactorFits
  by_cases hSame : o = host
  · rw [if_pos hSame, if_pos hSame,
      Set.Ico_subset_Ico_iff (by omega)]
    constructor
    · intro h
      exact ⟨by omega, fun hNe => (hNe hSame).elim⟩
    · intro h
      exact ⟨by omega, by omega⟩
  · rw [if_neg hSame, if_neg hSame, Set.union_subset_iff,
      Set.Ico_subset_Ico_iff (by omega)]
    by_cases h₀ : version0 m p = ch '2'
    · by_cases h₁ : version1 m p = ch '1'
      · rw [if_pos h₀, if_pos h₁, Set.union_subset_iff,
          Set.Ico_subset_Ico_iff (by omega),
          Set.singleton_subset_iff]
        constructor
        · intro h
          exact ⟨h.1.1, fun _ _ _ => h.2.2.2⟩
        · intro h
          have hFits := h.2 hSame h₀ h₁
          exact ⟨⟨h.1, by omega⟩, ⟨by omega, by omega⟩,
            by omega, hFits⟩
      · rw [if_pos h₀, if_neg h₁, Set.union_empty,
          Set.singleton_subset_iff]
        constructor
        · intro h
          exact ⟨h.1.1, fun _ _ hOne => (h₁ hOne).elim⟩
        · intro h
          exact ⟨⟨h.1, by omega⟩, by omega, by omega⟩
    · rw [if_neg h₀]
      constructor
      · intro h
        exact ⟨h.1.1, fun _ hTwo => (h₀ hTwo).elim⟩
      · intro h
        exact ⟨⟨h.1, by omega⟩, Set.empty_subset _⟩

/- At most the first four bytes may lie before the tank. -/
theorem neg_four_le_of_header
    (hHeader : (if o = host then -4 else 0) ≤ p) :
    -4 ≤ p := by
  refine le_trans ?_ hHeader
  split <;> decide

/- The samples that are swapped, if any. -/
theorem samples_subset_iff
    {n : Int} :
    (if o = host then (∅ : Set Int)
      else Set.Ico (p + 64) (p + 64 + n.toNat * k.width)) ⊆
        Set.Ico 0 e ↔
      (o ≠ host → 0 < n →
        0 ≤ p + 64 ∧ p + 64 + n.toNat * k.width ≤ e) := by
  by_cases hSame : o = host
  · rw [if_pos hSame]
    exact ⟨fun _ hNe => (hNe hSame).elim,
      fun _ => Set.empty_subset _⟩
  · rw [if_neg hSame]
    by_cases hPos : 0 < n
    · have hBytes : (0 : Int) < n.toNat * k.width := by
        have hCount : 0 < n.toNat := by omega
        exact mul_pos (Int.natCast_pos.mpr hCount)
          (Int.natCast_pos.mpr k.width_pos)
      rw [Set.Ico_subset_Ico_iff (by omega)]
      exact ⟨fun h _ _ => h, fun h => h hSame hPos⟩
    · have hZero : n.toNat = 0 := by omega
      rw [hZero, Nat.cast_zero, zero_mul, add_zero, Set.Ico_self]
      exact ⟨fun _ _ h => (hPos h).elim,
        fun _ => Set.empty_subset _⟩

/- What is touched whatever the datatype turns out to be. -/
theorem front_subset_iff :
    ({p + 55, p + 57} : Set Int) ∪
        (if IsLetter (datatype0 m p) then {p + 58} else ∅) ⊆
      Set.Ico 0 e ↔
      (-55 ≤ p ∧ p + 58 ≤ e) ∧
        (IsLetter (datatype0 m p) → p + 59 ≤ e) := by
  rw [Set.union_subset_iff, Set.insert_subset_iff,
    Set.singleton_subset_iff, Set.mem_Ico, Set.mem_Ico]
  by_cases hLetter : IsLetter (datatype0 m p)
  · rw [if_pos hLetter, Set.singleton_subset_iff, Set.mem_Ico]
    constructor
    · intro h
      exact ⟨by omega, fun _ => by omega⟩
    · intro h
      have hLong := h.2 hLetter
      exact ⟨by omega, by omega⟩
  · rw [if_neg hLetter]
    constructor
    · intro h
      exact ⟨by omega, fun hIs => (hLetter hIs).elim⟩
    · intro h
      exact ⟨by omega, Set.empty_subset _⟩

end Subsets

------------------------------------------------------------
-- The Exits Of An Iteration
------------------------------------------------------------

section Exits

variable {host o : ByteOrder} {k : SampleKind}
variable {fsize : Nat} {s : ScanState}

/- The rest of the body, for a message with its header in. -/
theorem messageFootprint_subset_iff
    [Rounding]
    (hLow : -4 ≤ s.tankbyte)
    (hTank : s.tankbyte + 59 ≤ fsize) :
    messageFootprint host s ⊆ Set.Ico 0 (fsize : Int) ↔
      (swapCode host s = 0 ∧ 0 < s.skipbyte →
        (swapMem host s).HasIn isNul
          (s.tankbyte + 52) fsize) ∧
        (swapMem host s).HasIn isNoDigit
          (s.tankbyte + 58) fsize := by
  unfold messageFootprint
  rw [Set.union_subset_iff, Set.union_subset_iff,
    Set.union_subset_iff, Set.union_subset_iff,
    Set.Ico_subset_Ico_iff (by omega),
    Set.Ico_subset_Ico_iff (by omega),
    Set.Ico_subset_Ico_iff (by omega),
    ByteMem.upTo_subset_iff (by omega)]
  have hPrint :
      (if swapCode host s = 0 ∧ 0 < s.skipbyte then
        codeStrings (swapMem host s) s.tankbyte ∪
          Set.Ico (s.tankbyte + 8) (s.tankbyte + 24)
      else
        ∅) ⊆ Set.Ico 0 (fsize : Int) ↔
        (swapCode host s = 0 ∧ 0 < s.skipbyte →
          (swapMem host s).HasIn isNul
            (s.tankbyte + 52) fsize) := by
    by_cases hSkip : swapCode host s = 0 ∧ 0 < s.skipbyte
    · rw [if_pos hSkip, Set.union_subset_iff,
        codeStrings_subset_iff (by omega),
        Set.Ico_subset_Ico_iff (by omega)]
      constructor
      · intro h _
        exact h.1
      · intro h
        exact ⟨h hSkip, by omega, by omega⟩
    · rw [if_neg hSkip]
      constructor
      · intro _ h
        exact (hSkip h).elim
      · intro _
        exact Set.empty_subset _
  rw [hPrint]
  constructor
  · intro h
    exact ⟨h.1.1.1.1, h.1.2⟩
  · intro h
    exact ⟨⟨⟨⟨h.1, by omega⟩, by omega⟩, h.2⟩, by omega⟩

/- The entry that is stored, if one is. -/
theorem kept_inside_iff [Rounding] :
    (∀ e ∈ keptAt host s, 0 ≤ e.offset ∧ e.stop ≤ fsize) ↔
      (swapCode host s = 0 →
        -64 ≤ datalen host (swapMem host s) s.tankbyte →
          datalen host (swapMem host s) s.tankbyte ≤
              tracedataMaxSize →
            0 ≤ s.tankbyte ∧
              s.tankbyte + 64 +
                datalen host (swapMem host s) s.tankbyte ≤
                  fsize) := by
  have hLow := wrap32_lower
    (bytePerSample (swapMem host s) s.tankbyte *
      nsamp host (swapMem host s) s.tankbyte)
  have hHigh := wrap32_upper
    (bytePerSample (swapMem host s) s.tankbyte *
      nsamp host (swapMem host s) s.tankbyte)
  change -2 ^ 31 ≤
    datalen host (swapMem host s) s.tankbyte at hLow
  change
    datalen host (swapMem host s) s.tankbyte < 2 ^ 31 at hHigh
  have hSize :
      (tbufAt host s).size =
        ((datalen host (swapMem host s) s.tankbyte + 64) %
          2 ^ 64).toNat := rfl
  have hOffset : (tbufAt host s).offset = s.tankbyte := rfl
  unfold keptAt
  by_cases hKeeps : Keeps (swapCode host s) (tbufAt host s)
  · rw [if_pos hKeeps]
    simp only [List.mem_singleton, forall_eq, TBuf.stop,
      hOffset]
    have hSmall := hKeeps.2
    unfold maxTracebufSiz at hSmall
    unfold tracedataMaxSize maxTracebufSiz sizeofTrace2Header
    constructor
    · intro h _ _ _
      omega
    · intro h
      have hFits := h hKeeps.1 (by omega) (by omega)
      omega
  · rw [if_neg hKeeps]
    constructor
    · intro _ hRc hFrom hTo
      refine (hKeeps ⟨hRc, ?_⟩).elim
      unfold tracedataMaxSize maxTracebufSiz
        sizeofTrace2Header at hTo
      unfold maxTracebufSiz
      omega
    · intro _ e he
      cases he

/- What a message of a known datatype needs. -/
theorem fits_iff_of_kind
    [Rounding]
    (hKind :
      kindOf (datatype0 s.mem s.tankbyte)
        (datatype1 s.mem s.tankbyte) = some (o, k)) :
    Fits host fsize s ↔
      -55 ≤ s.tankbyte ∧ s.tankbyte + 59 ≤ fsize ∧
        KnownFits host o k fsize s := by
  constructor
  · intro h
    exact ⟨h.front.1, h.letter (isLetter_of_kind hKind),
      h.known o k hKind⟩
  · rintro ⟨hLow, hTank, hKnown⟩
    refine ⟨⟨hLow, by omega⟩, fun _ => hTank, ?_⟩
    intro o' k' hKind'
    rw [hKind] at hKind'
    cases hKind'
    exact hKnown

/- An unknown datatype: only the front is read. -/
theorem inside_iff_of_unknown
    [Rounding]
    (hKind :
      kindOf (datatype0 s.mem s.tankbyte)
        (datatype1 s.mem s.tankbyte) = none) :
    Inside host fsize s ↔ Fits host fsize s := by
  have hCode : swapCode host s = -1 := by
    unfold swapCode swapWavemsg2Makelocal
    rw [makelocalWavemsgVer_of_unknown host _ _ _ hKind]
  unfold Inside footprint swapFootprint
  rw [hKind, keptAt_of_refused hCode, if_pos hCode,
    Set.union_empty]
  simp only [Set.union_empty]
  rw [front_subset_iff]
  constructor
  · intro h
    exact ⟨h.1.1, h.1.2, fun o k hSome => by
      rw [hKind] at hSome
      cases hSome⟩
  · intro h
    exact ⟨⟨h.front, h.letter⟩, by simp⟩

/- Too many samples: the complaint prints all five texts. -/
theorem inside_iff_of_many
    [Rounding]
    (hKind :
      kindOf (datatype0 s.mem s.tankbyte)
        (datatype1 s.mem s.tankbyte) = some (o, k))
    (hMany : k.capacity < nsamp o s.mem s.tankbyte) :
    Inside host fsize s ↔ Fits host fsize s := by
  have hLetter := isLetter_of_kind hKind
  have hCode : swapCode host s = -1 := by
    by_contra hRc
    rcases (swapCode_ne_iff host s.mem s.tankbyte).mp hRc with
      ⟨o', k', hKind', hFew⟩
    rw [hKind] at hKind'
    cases hKind'
    omega
  unfold Inside footprint swapFootprint
  rw [fits_iff_of_kind hKind, hKind, keptAt_of_refused hCode,
    if_pos hCode, Set.union_empty, Set.union_subset_iff,
    front_subset_iff]
  simp only [knownFootprint, if_pos hMany]
  rw [Set.union_subset_iff, Set.union_subset_iff]
  constructor
  · rintro ⟨⟨⟨hFront, hLong⟩, hHeader, _, hType⟩, _⟩
    have hTank := hLong hLetter
    rw [headerFootprint_subset_iff hTank] at hHeader
    have hLow := neg_four_le_of_header hHeader.1
    rw [ByteMem.upTo_subset_iff (by omega),
      hasIn_localHeader (by omega) (by omega) hHeader.2]
      at hType
    exact ⟨hFront.1, hTank,
      { header := hHeader.1
        factor := hHeader.2
        refused := fun _ => hType
        number := fun hFew => by omega
        printed := fun hFew => by omega
        samples := fun hFew => by omega
        stored := fun hFew => by omega }⟩
  · rintro ⟨hFront, hTank, hKnown⟩
    have hLow := neg_four_le_of_header hKnown.header
    have hType := hKnown.refused hMany
    refine
      ⟨⟨⟨⟨hFront, by omega⟩, fun _ => hTank⟩, ?_, ?_, ?_⟩,
        by simp⟩
    · rw [headerFootprint_subset_iff hTank]
      exact ⟨hKnown.header, hKnown.factor⟩
    · rw [codeStrings_subset_iff (by omega),
        hasIn_localHeader (by omega) (by omega) hKnown.factor]
      exact hType.mono (by omega)
    · rw [ByteMem.upTo_subset_iff (by omega),
        hasIn_localHeader (by omega) (by omega) hKnown.factor]
      exact hType

/- An inconsistent header: the complaint, then the rest. -/
theorem inside_iff_of_inconsistent
    [Rounding]
    (hKind :
      kindOf (datatype0 s.mem s.tankbyte)
        (datatype1 s.mem s.tankbyte) = some (o, k))
    (hFew : nsamp o s.mem s.tankbyte ≤ k.capacity)
    (hBad : Inconsistent o s.mem s.tankbyte) :
    Inside host fsize s ↔ Fits host fsize s := by
  have hLetter := isLetter_of_kind hKind
  have hMany :
      ¬ (k.capacity : Int) < nsamp o s.mem s.tankbyte := by
    omega
  have hResult :=
    swapWavemsg2Makelocal_of_inconsistent host o s.mem
      s.tankbyte hKind hFew hBad
  have hCode : swapCode host s = -2 := by
    rw [swapCode, hResult]
  have hMem :
      swapMem host s =
        localHeader host o s.mem s.tankbyte
          (version0 s.mem s.tankbyte) := by
    rw [swapMem, hResult]
  unfold Inside footprint swapFootprint
  rw [fits_iff_of_kind hKind, hKind, kept_inside_iff, hCode,
    if_neg (by decide : ¬ (-2 : Int) = -1),
    Set.union_subset_iff, Set.union_subset_iff,
    front_subset_iff]
  simp only [knownFootprint, if_neg hMany, if_pos hBad]
  rw [Set.union_subset_iff, Set.union_subset_iff,
    Set.Ico_subset_Ico_iff (by omega)]
  constructor
  · rintro ⟨⟨⟨⟨hFront, hLong⟩, hHeader, _, hText⟩, hRest⟩, _⟩
    have hTank := hLong hLetter
    rw [headerFootprint_subset_iff hTank] at hHeader
    have hLow := neg_four_le_of_header hHeader.1
    rw [codeStrings_subset_iff (by omega),
      hasIn_localHeader (by omega) (by omega) hHeader.2]
      at hText
    rw [messageFootprint_subset_iff hLow hTank, hMem,
      hasIn_localHeader (q := s.tankbyte + 58) (by omega)
        (by omega) hHeader.2] at hRest
    exact ⟨hFront.1, hTank,
      { header := hHeader.1
        factor := hHeader.2
        refused := fun hLt => (hMany hLt).elim
        number := fun _ => hRest.2
        printed := fun _ _ => hText
        samples := fun _ hGood => (hGood hBad).elim
        stored := fun _ hGood => (hGood hBad).elim }⟩
  · rintro ⟨hFront, hTank, hKnown⟩
    have hLow := neg_four_le_of_header hKnown.header
    have hText := hKnown.printed hFew (Or.inl hBad)
    refine
      ⟨⟨⟨⟨⟨hFront, by omega⟩, fun _ => hTank⟩, ?_, by omega, ?_⟩,
        ?_⟩, ?_⟩
    · rw [headerFootprint_subset_iff hTank]
      exact ⟨hKnown.header, hKnown.factor⟩
    · rw [codeStrings_subset_iff (by omega),
        hasIn_localHeader (by omega) (by omega) hKnown.factor]
      exact hText
    · rw [messageFootprint_subset_iff hLow hTank, hMem,
        hasIn_localHeader (q := s.tankbyte + 58) (by omega)
          (by omega) hKnown.factor, hCode]
      refine ⟨?_, hKnown.number hFew⟩
      rintro ⟨hZero, _⟩
      cases hZero
    · intro hZero
      cases hZero

/- A message let through: samples, texts and the entry. -/
theorem inside_iff_of_good
    [Rounding]
    (hKind :
      kindOf (datatype0 s.mem s.tankbyte)
        (datatype1 s.mem s.tankbyte) = some (o, k))
    (hFew : nsamp o s.mem s.tankbyte ≤ k.capacity)
    (hGood : ¬ Inconsistent o s.mem s.tankbyte) :
    Inside host fsize s ↔ Fits host fsize s := by
  have hLetter := isLetter_of_kind hKind
  have hMany :
      ¬ (k.capacity : Int) < nsamp o s.mem s.tankbyte := by
    omega
  have hResult :=
    swapWavemsg2Makelocal_of_consistent host o s.mem s.tankbyte
      hKind hFew hGood
  have hCode : swapCode host s = 0 := by
    rw [swapCode, hResult]
  have hMem :
      swapMem host s =
        localMessage host o s.mem s.tankbyte
          (version0 s.mem s.tankbyte) k := by
    rw [swapMem, hResult]
  have hReads :
      ReadsAs host o s.mem (swapMem host s) s.tankbyte :=
    readsAs_of_few hKind hFew
  have hLength :
      datalen host (swapMem host s) s.tankbyte =
        dataLength host o s := by
    unfold datalen dataLength
    rw [hReads.nsamp]
  unfold Inside footprint swapFootprint
  rw [fits_iff_of_kind hKind, hKind, kept_inside_iff, hCode,
    if_neg (by decide : ¬ (0 : Int) = -1),
    Set.union_subset_iff, Set.union_subset_iff,
    front_subset_iff, hLength]
  simp only [knownFootprint, if_neg hMany, if_neg hGood]
  rw [Set.union_subset_iff, Set.union_subset_iff,
    Set.Ico_subset_Ico_iff (by omega), samples_subset_iff]
  constructor
  · rintro
      ⟨⟨⟨⟨hFront, hLong⟩, hHeader, _, hData⟩, hRest⟩, hKept⟩
    have hTank := hLong hLetter
    rw [headerFootprint_subset_iff hTank] at hHeader
    have hLow := neg_four_le_of_header hHeader.1
    have hSamples :
        o ≠ host → 0 < nsamp o s.mem s.tankbyte →
          s.tankbyte + 64 +
            (nsamp o s.mem s.tankbyte).toNat * k.width ≤
              (fsize : Int) :=
      fun hNe hPos => (hData hNe hPos).2
    rcases hasIn_codes_localMessage hKind hHeader.2 hSamples
      with ⟨hText, hNumber⟩
    rw [← hMem] at hText hNumber
    rw [messageFootprint_subset_iff hLow hTank, hText,
      hNumber] at hRest
    exact ⟨hFront.1, hTank,
      { header := hHeader.1
        factor := hHeader.2
        refused := fun hLt => (hMany hLt).elim
        number := fun _ => hRest.2
        printed := fun _ hWhy =>
          hRest.1 ⟨hCode, hWhy.resolve_left hGood⟩
        samples := fun _ _ => hSamples
        stored := fun _ _ => hKept trivial }⟩
  · rintro ⟨hFront, hTank, hKnown⟩
    have hLow := neg_four_le_of_header hKnown.header
    have hSamples := hKnown.samples hFew hGood
    rcases hasIn_codes_localMessage hKind hKnown.factor
        hSamples with
      ⟨hText, hNumber⟩
    rw [← hMem] at hText hNumber
    refine
      ⟨⟨⟨⟨⟨hFront, by omega⟩, fun _ => hTank⟩, ?_, by omega, ?_⟩,
        ?_⟩, ?_⟩
    · rw [headerFootprint_subset_iff hTank]
      exact ⟨hKnown.header, hKnown.factor⟩
    · intro hNe hPos
      exact ⟨by omega, hSamples hNe hPos⟩
    · rw [messageFootprint_subset_iff hLow hTank, hText,
        hNumber]
      exact ⟨fun hSkip => hKnown.printed hFew (Or.inr hSkip.2),
        hKnown.number hFew⟩
    · intro _
      exact hKnown.stored hFew hGood

/- What an iteration needs, whatever its exit. -/
theorem inside_iff_fits
    [Rounding]
    (host : ByteOrder)
    (fsize : Nat)
    (s : ScanState) :
    Inside host fsize s ↔ Fits host fsize s := by
  cases hKind :
      kindOf (datatype0 s.mem s.tankbyte)
        (datatype1 s.mem s.tankbyte) with
  | none => exact inside_iff_of_unknown hKind
  | some ok =>
      obtain ⟨o, k⟩ := ok
      by_cases hMany : k.capacity < nsamp o s.mem s.tankbyte
      · exact inside_iff_of_many hKind hMany
      · have hFew : nsamp o s.mem s.tankbyte ≤ k.capacity := by
          omega
        by_cases hBad : Inconsistent o s.mem s.tankbyte
        · exact inside_iff_of_inconsistent hKind hFew hBad
        · exact inside_iff_of_good hKind hFew hBad

end Exits

------------------------------------------------------------
-- Runs That Stay In The Tank
------------------------------------------------------------

/-
  Every iteration touches and stores only the tank, and so
  every entry of every node lies in the tank.
-/
def StaysInside
    [Rounding]
    (host : ByteOrder)
    (tank : List UInt8)
    (around : ByteMem) : Prop :=
  let L := scanLoop host tank.length
  let s₀ := scanInit (mapTank tank around)
  (∀ s, L.Head s₀ s → Inside host tank.length s) ∧
    ∀ hs s, L.Trace s₀ hs s →
      ∀ e ∈ storedTbufs s,
        0 ≤ e.offset ∧ e.stop ≤ tank.length

/- The scan stays inside exactly when every message fits. -/
theorem scan_stays_inside_iff
    [Rounding]
    (host : ByteOrder)
    (tank : List UInt8)
    (around : ByteMem) :
    StaysInside host tank around ↔
      ∀ s,
        (scanLoop host tank.length).Head
            (scanInit (mapTank tank around)) s →
          Fits host tank.length s := by
  constructor
  · intro h s hHead
    exact (inside_iff_fits host _ s).mp (h.1 s hHead)
  · intro h
    have hInside :
        ∀ s,
          (scanLoop host tank.length).Head
              (scanInit (mapTank tank around)) s →
            Inside host tank.length s :=
      fun s hHead => (inside_iff_fits host _ s).mpr (h s hHead)
    refine ⟨hInside, ?_⟩
    intro hs s hTrace e he
    have hLog :=
      (stored_perm_of_trace hTrace).2.mem_iff.mp he
    rcases List.mem_flatMap.mp hLog with ⟨h', hMem, hKept⟩
    exact (hInside h' (hTrace.head_of_mem h' hMem)).2 e hKept

attribute [local instance] Rounding.nearest

/- A file of one byte is read past its end. -/
theorem one_byte_tank_not_inside :
    ¬ StaysInside .little [0] (fun _ => 0) := by
  intro h
  have hInside := h.1 _ DoLoop.Head.entry
  have hFits := (inside_iff_fits _ _ _).mp hInside
  have hFront := hFits.front.2
  exact absurd hFront (by decide)

end TankConvertor
