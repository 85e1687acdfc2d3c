import TankConvertor.Swap.Makelocal

/-
  What the in-place byte-order routine does, read off the
  message in the order its own datatype names.

  Key definitions include:
    * `SampleKind`
    * `kindOf`
    * `localHeader`
    * `localMessage`

  Key theorems include:
    * `not_endtimeOff_iff`
    * `makelocalWavemsgVer_of_kind`
    * `swapWavemsg2Makelocal_cases`
    * `readsAs_of_few`
    * `nsamp_localHeader` and its sibling fields
-/

------------------------------------------------------------
-- Sample Kinds
------------------------------------------------------------

namespace TankConvertor

open Trace2Header

/- The four sample formats a tracebuf carries. -/
inductive SampleKind where
| i2
| i4
| f4
| f8
deriving DecidableEq, Repr

namespace SampleKind

/- Bytes of one sample. -/
def width : SampleKind → Nat
| .i2 => 2
| .i4 => 4
| .f4 => 4
| .f8 => 8

/- The datatype letter that names the format in an order. -/
def letter : SampleKind → ByteOrder → UInt8
| .i2, .little => ch 'i'
| .i2, .big => ch 's'
| .i4, .little => ch 'i'
| .i4, .big => ch 's'
| .f4, .little => ch 'f'
| .f4, .big => ch 't'
| .f8, .little => ch 'f'
| .f8, .big => ch 't'

/- The datatype digit. -/
def digit : SampleKind → UInt8
| .i2 => ch '2'
| .i4 => ch '4'
| .f4 => ch '4'
| .f8 => ch '8'

/- Largest number of samples that fit in a message. -/
def capacity (k : SampleKind) : Nat :=
  tracedataMaxSize / k.width

theorem width_pos
    (k : SampleKind) :
    0 < k.width := by
  cases k <;> decide

theorem capacity_mul_width
    (k : SampleKind) :
    k.capacity * k.width = 4032 := by
  cases k <;> rfl

theorem capacity_le
    (k : SampleKind) :
    k.capacity ≤ 2016 := by
  cases k <;> decide

/- As many samples take up no more than 4032 bytes. -/
theorem width_mul_le
    {k : SampleKind}
    {n : Int}
    (hFew : n ≤ k.capacity) :
    (k.width : Int) * n ≤ 4032 := by
  have hCapacity : (k.width : Int) * k.capacity = 4032 := by
    rw [mul_comm]
    exact_mod_cast k.capacity_mul_width
  rw [← hCapacity]
  gcongr

/- And an `int` counts these bytes. -/
theorem wrap32_width_mul
    {k : SampleKind}
    {n : Nat}
    (hFew : n ≤ k.capacity) :
    wrap32 ((k.width : Int) * n) = k.width * n := by
  have hBytes : (k.width : Int) * n ≤ 4032 :=
    width_mul_le (by exact_mod_cast hFew)
  have hNonneg : (0 : Int) ≤ k.width * n := by positivity
  exact wrap32_of_mem (by omega) (by omega)

/- A message of as many samples is not too large. -/
theorem size_le
    {k : SampleKind}
    {n : Nat}
    (hFew : n ≤ k.capacity) :
    sizeofTrace2Header + k.width * n ≤ maxTracebufSiz := by
  have hBytes : (k.width : Int) * n ≤ 4032 :=
    width_mul_le (by exact_mod_cast hFew)
  have hBytes' : k.width * n ≤ 4032 := by
    exact_mod_cast hBytes
  unfold sizeofTrace2Header maxTracebufSiz
  omega

end SampleKind

/- Byte order and format named by the datatype characters. -/
def kindOf (d₀ d₁ : UInt8) : Option (ByteOrder × SampleKind) :=
  if d₀ = ch 's' ∧ d₁ = ch '2' then some (.big, .i2)
  else if d₀ = ch 's' ∧ d₁ = ch '4' then some (.big, .i4)
  else if d₀ = ch 'i' ∧ d₁ = ch '2' then some (.little, .i2)
  else if d₀ = ch 'i' ∧ d₁ = ch '4' then some (.little, .i4)
  else if d₀ = ch 't' ∧ d₁ = ch '4' then some (.big, .f4)
  else if d₀ = ch 't' ∧ d₁ = ch '8' then some (.big, .f8)
  else if d₀ = ch 'f' ∧ d₁ = ch '4' then some (.little, .f4)
  else if d₀ = ch 'f' ∧ d₁ = ch '8' then some (.little, .f8)
  else none

@[simp] theorem kindOf_letter
    (o : ByteOrder)
    (k : SampleKind) :
    kindOf (k.letter o) k.digit = some (o, k) := by
  cases o <;> cases k <;> decide

/- A known datatype consists of its letter and its digit. -/
theorem eq_of_kindOf
    {d₀ d₁ : UInt8}
    {o : ByteOrder}
    {k : SampleKind}
    (hKind : kindOf d₀ d₁ = some (o, k)) :
    d₀ = k.letter o ∧ d₁ = k.digit := by
  unfold kindOf at hKind
  repeat' split at hKind
  all_goals
    first
    | (rename_i h
       cases hKind
       exact h)
    | cases hKind

theorem kindOf_datatype
    {m : ByteMem}
    {p : Int}
    {o : ByteOrder}
    {k : SampleKind}
    (hLetter : m (p + 57) = k.letter o)
    (hDigit : m (p + 58) = k.digit) :
    kindOf (datatype0 m p) (datatype1 m p) = some (o, k) := by
  unfold datatype0 datatype1
  rw [hLetter, hDigit, kindOf_letter]

/- The routine knows exactly the data sorts with a kind. -/
theorem sortOfData_eq_none_of_kindOf
    {d₀ d₁ : UInt8}
    (hKind : kindOf d₀ d₁ = none) :
    sortOfData d₀ d₁ = none := by
  unfold kindOf at hKind
  split_ifs at hKind with h₁ h₂ h₃ h₄ h₅ h₆ h₇ h₈
  unfold sortOfData
  -- Each test of the routine stands for two of these.
  simp only [and_or_left]
  rw [if_neg (not_or.mpr ⟨h₁, h₂⟩),
    if_neg (not_or.mpr ⟨h₃, h₄⟩),
    if_neg (not_or.mpr ⟨h₅, h₆⟩),
    if_neg (not_or.mpr ⟨h₇, h₈⟩)]

@[simp] theorem sortOfData_letter
    (o : ByteOrder)
    (k : SampleKind) :
    sortOfData (k.letter o) k.digit = some (k.letter o) := by
  cases o <;> cases k <;> decide

------------------------------------------------------------
-- The Check Of The End Time
------------------------------------------------------------

/-
  At one sample per second, whole numbers of seconds are
  compared as they are, however results are rounded.
-/
theorem not_endtimeOff_of_whole
    [Rounding]
    {nsamp start stop : Int}
    (hCount : 0 ≤ nsamp ∧ nsamp ≤ 2 ^ 20)
    (hStart : |start| ≤ 2 ^ 40)
    (hNear : |stop - (start + (nsamp - 1))| ≤ 5) :
    ¬ EndtimeOff nsamp (ExtRat.ofInt start)
        (ExtRat.ofInt stop) (ExtRat.ofInt 1) := by
  have hWrap : wrap32 (nsamp - 1) = nsamp - 1 :=
    wrap32_of_mem (by omega) (by omega)
  rw [abs_le] at hStart hNear
  have hKept :
      ∀ n : Int, -(2 ^ 41) ≤ n → n ≤ 2 ^ 41 →
        Rounding.double (ExtRat.ofInt n) = ExtRat.ofInt n := by
    intro n hLow hHigh
    apply Rounding.double_ofInt
    rw [abs_lt]
    omega
  unfold EndtimeOff
  simp only [hWrap, ExtRat.ofInt_div_one]
  rw [hKept (nsamp - 1) (by omega) (by omega),
    ExtRat.ofInt_add, hKept 5 (by omega) (by omega),
    hKept (start + (nsamp - 1)) (by omega) (by omega),
    ExtRat.ofInt_sub, ExtRat.ofInt_add,
    hKept _ (by omega) (by omega),
    hKept _ (by omega) (by omega),
    ExtRat.ofInt_lt_iff, ExtRat.ofInt_lt_iff]
  omega

section Exact

attribute [local instance] Rounding.exact

/-
  In exact arithmetic the check of the end time is, on finite
  numbers, the one that it is meant to be.
-/
theorem not_endtimeOff_iff
    {nsamp : Int}
    {starttime endtime samprate : ExtRat}
    (hCount : 0 ≤ nsamp)
    (hFew : nsamp < 2 ^ 31)
    (hStart : starttime.IsFinite)
    (hRate : samprate.IsFinite)
    (hPos : 0 < samprate.toRat)
    (hNumber : endtime ≠ .nan) :
    ¬ EndtimeOff nsamp starttime endtime samprate ↔
      endtime.IsFinite ∧
        |endtime.toRat -
            (starttime.toRat +
              ((nsamp - 1 : Int) : ℚ) / samprate.toRat)| ≤
          5 / samprate.toRat := by
  have hWrap : wrap32 (nsamp - 1) = nsamp - 1 :=
    wrap32_of_mem (by omega) (by omega)
  rcases ExtRat.div_finite (ExtRat.isFinite_ofInt (nsamp - 1))
      hRate hPos.ne' with
    ⟨hLast, eLast⟩
  rcases ExtRat.div_finite (ExtRat.isFinite_ofInt 5) hRate
      hPos.ne' with
    ⟨hFudge, eFudge⟩
  rcases ExtRat.add_finite hStart hLast with
    ⟨hComputed, eComputed⟩
  rcases ExtRat.sub_finite hComputed hFudge with ⟨hLow, eLow⟩
  rcases ExtRat.add_finite hComputed hFudge with
    ⟨hHigh, eHigh⟩
  unfold EndtimeOff
  simp only [Rounding.double, id, hWrap, not_or]
  -- An end time between the bounds is finite.
  constructor
  · rintro ⟨hAfter, hBefore⟩
    have hEnd : endtime.IsFinite :=
      ExtRat.isFinite_of_between hLow hHigh hNumber hAfter
        hBefore
    rw [ExtRat.lt_iff_of_finite hEnd hLow, eLow, eComputed,
      eLast, eFudge, ExtRat.toRat_ofInt, ExtRat.toRat_ofInt]
      at hAfter
    rw [ExtRat.lt_iff_of_finite hHigh hEnd, eHigh, eComputed,
      eLast, eFudge, ExtRat.toRat_ofInt, ExtRat.toRat_ofInt]
      at hBefore
    refine ⟨hEnd, ?_⟩
    push_cast at hAfter hBefore ⊢
    rw [abs_le]
    constructor <;> linarith
  · rintro ⟨hEnd, hNear⟩
    rw [ExtRat.lt_iff_of_finite hEnd hLow,
      ExtRat.lt_iff_of_finite hHigh hEnd, eLow, eHigh,
      eComputed, eLast, eFudge, ExtRat.toRat_ofInt,
      ExtRat.toRat_ofInt]
    rw [abs_le] at hNear
    push_cast at hNear ⊢
    constructor <;> linarith

end Exact

------------------------------------------------------------
-- Header Numbers In The Host's Order
------------------------------------------------------------

/- The header once its numbers are in the host's order. -/
def localHeader
    (host o : ByteOrder)
    (m : ByteMem)
    (p : Int)
    (version : UInt8) :
    ByteMem :=
  if o = host then m else swapHeader m p version

/- Swapping the header reverses each of its five numbers. -/
theorem read_swapHeader
    (m : ByteMem)
    (p : Int)
    (v : UInt8) :
    (swapHeader m p v).read p 4 = (m.read p 4).reverse ∧
    (swapHeader m p v).read (p + 4) 4 =
      (m.read (p + 4) 4).reverse ∧
    (swapHeader m p v).read (p + 8) 8 =
      (m.read (p + 8) 8).reverse ∧
    (swapHeader m p v).read (p + 16) 8 =
      (m.read (p + 16) 8).reverse ∧
    (swapHeader m p v).read (p + 24) 8 =
      (m.read (p + 24) 8).reverse := by
  unfold swapHeader
  simp only []
  split_ifs <;>
    refine ⟨?_, ?_, ?_, ?_, ?_⟩ <;>
    simp (disch := omega) only
      [ByteMem.read_swapAt_of_disjoint,
        ByteMem.read_swapAt_self]

/- Codes, version, datatype and samples are untouched. -/
theorem swapHeader_of_outside
    (m : ByteMem)
    {p i : Int}
    (v : UInt8)
    (hOut :
      i < p ∨ (p + 32 ≤ i ∧ i < p + 60) ∨ p + 64 ≤ i) :
    swapHeader m p v i = m i := by
  unfold swapHeader
  split_ifs <;>
    simp (disch := omega) only [ByteMem.swapAt_of_outside]

/- Without a conversion factor the last four stay as well. -/
theorem swapHeader_of_tail
    (m : ByteMem)
    {p i : Int}
    {v : UInt8}
    (hOut : i < p ∨ p + 32 ≤ i)
    (hVersion : ¬ (v = ch '2' ∧ version1 m p = ch '1')) :
    swapHeader m p v i = m i := by
  have hSame :
      version1
        ((((m.swapAt p 4).swapAt (p + 4) 4).swapAt
          (p + 8) 8).swapAt (p + 16) 8 |>.swapAt (p + 24) 8)
        p = version1 m p := by
    unfold version1
    simp (disch := omega) only [ByteMem.swapAt_of_outside]
  unfold swapHeader
  simp only [hSame]
  split_ifs with hv h1
  · exact (hVersion ⟨hv, h1⟩).elim
  · simp (disch := omega) only [ByteMem.swapAt_of_outside]
  · simp (disch := omega) only [ByteMem.swapAt_of_outside]

/- With one, its four bytes are all that changes there. -/
theorem swapHeader_of_factor
    (m : ByteMem)
    {p i : Int}
    (hTail : p + 32 ≤ i)
    (hVersion : version1 m p = ch '1') :
    swapHeader m p (ch '2') i = m.swapAt (p + 60) 4 i := by
  let m' :=
    ((((m.swapAt p 4).swapAt (p + 4) 4).swapAt
      (p + 8) 8).swapAt (p + 16) 8).swapAt (p + 24) 8
  have hSame : ∀ j, p + 32 ≤ j → m' j = m j := by
    intro j hj
    simp (disch := omega) only
      [m', ByteMem.swapAt_of_outside]
  have hOne : version1 m' p = ch '1' := by
    rw [← hVersion]
    exact hSame (p + 56) (by omega)
  change
    (if ch '2' = ch '2' then
      if version1 m' p = ch '1' then m'.swapAt (p + 60) 4
      else m'
    else m') i = _
  rw [if_pos rfl, if_pos hOne]
  unfold ByteMem.swapAt
  split
  · exact hSame _ (by omega)
  · exact hSame i hTail

variable (host o : ByteOrder)
variable (m : ByteMem) (p : Int) (v : UInt8)

/- The other order of two different ones. -/
theorem swap_eq_of_ne
    {a b : ByteOrder}
    (hNe : a ≠ b) :
    b.swap = a := by
  cases a <;> cases b <;> simp_all [ByteOrder.swap]

/-
  A number of the header, read in the host's order after the
  swap, is the number read in the message's order before.
-/
private theorem value_localHeader
    {q : Int}
    {n : Nat}
    (hRead :
      (swapHeader m p v).read q n = (m.read q n).reverse) :
    host.value ((localHeader host o m p v).read q n) =
      o.value (m.read q n) := by
  unfold localHeader
  by_cases hEq : o = host
  · rw [if_pos hEq, hEq]
  · rw [if_neg hEq, hRead, ByteOrder.value_reverse,
      swap_eq_of_ne hEq]

@[simp] theorem pinno_localHeader :
    pinno host (localHeader host o m p v) p =
      pinno o m p := by
  unfold pinno
  rw [value_localHeader host o m p v
    (read_swapHeader m p v).1]

@[simp] theorem nsamp_localHeader :
    nsamp host (localHeader host o m p v) p =
      nsamp o m p := by
  unfold nsamp
  rw [value_localHeader host o m p v
    (read_swapHeader m p v).2.1]

@[simp] theorem starttime_localHeader :
    starttime host (localHeader host o m p v) p =
      starttime o m p := by
  unfold starttime
  rw [value_localHeader host o m p v
    (read_swapHeader m p v).2.2.1]

@[simp] theorem endtime_localHeader :
    endtime host (localHeader host o m p v) p =
      endtime o m p := by
  unfold endtime
  rw [value_localHeader host o m p v
    (read_swapHeader m p v).2.2.2.1]

@[simp] theorem samprate_localHeader :
    samprate host (localHeader host o m p v) p =
      samprate o m p := by
  unfold samprate
  rw [value_localHeader host o m p v
    (read_swapHeader m p v).2.2.2.2]

@[simp] theorem inconsistent_localHeader [Rounding] :
    Inconsistent host (localHeader host o m p v) p ↔
      Inconsistent o m p := by
  unfold Inconsistent
  simp

/- Bytes that are no number of the header are untouched. -/
theorem localHeader_of_outside
    {i : Int}
    (hOut :
      i < p ∨ (p + 32 ≤ i ∧ i < p + 60) ∨ p + 64 ≤ i) :
    localHeader host o m p v i = m i := by
  unfold localHeader
  split
  · rfl
  · exact swapHeader_of_outside m v hOut

/- A message in the host's order is left as it is. -/
@[simp] theorem localHeader_self :
    localHeader host host m p v = m := by
  simp [localHeader]

------------------------------------------------------------
-- The Whole Message
------------------------------------------------------------

/- The message once it is all in the host's order. -/
def localMessage
    (k : SampleKind) :
    ByteMem :=
  if o = host then
    m
  else
    swapData (localHeader host o m p v) p k.width
      (nsamp o m p) (k.letter host)

/- The result for a known datatype, in the message's order. -/
theorem makelocalWavemsgVer_of_kind
    [Rounding]
    {k : SampleKind}
    (hKind :
      kindOf (datatype0 m p) (datatype1 m p) = some (o, k)) :
    makelocalWavemsgVer host m p v =
      if (k.capacity : Int) < nsamp o m p then
        (-1, localHeader host o m p v)
      else if Inconsistent o m p then
        (-2, localHeader host o m p v)
      else
        (0, localMessage host o m p v k) := by
  rcases eq_of_kindOf hKind with ⟨h₀, h₁⟩
  have hSize : (datatype1 m p - ch '0').toNat = k.width := by
    rw [h₁]
    cases k <;> rfl
  have hHeader :
      (if k.letter o ≠ locIbyteOrder host ∧
          k.letter o ≠ locFbyteOrder host then
        swapHeader m p v
      else m) = localHeader host o m p v := by
    unfold localHeader
    cases host <;> cases o <;> cases k <;> rfl
  have hData :
      (if k.letter o = opsIbyteOrder host then
        ((0 : Int),
          swapData (localHeader host o m p v) p k.width
            (nsamp o m p) (locIbyteOrder host))
      else if k.letter o = opsFbyteOrder host then
        (0,
          swapData (localHeader host o m p v) p k.width
            (nsamp o m p) (locFbyteOrder host))
      else (0, localHeader host o m p v)) =
        (0, localMessage host o m p v k) := by
    unfold localMessage
    cases host <;> cases o <;> cases k <;> rfl
  unfold makelocalWavemsgVer
  rw [h₀, h₁, sortOfData_letter]
  simp only [← h₁]
  rw [hSize, hHeader]
  simp only [nsamp_localHeader, inconsistent_localHeader]
  rw [hData]
  rfl

/- The result for a datatype the routine does not know. -/
theorem makelocalWavemsgVer_of_unknown
    [Rounding]
    (hKind :
      kindOf (datatype0 m p) (datatype1 m p) = none) :
    makelocalWavemsgVer host m p v = (-1, m) := by
  unfold makelocalWavemsgVer
  rw [sortOfData_eq_none_of_kindOf hKind]

/- The exit for an inconsistent header. -/
theorem swapWavemsg2Makelocal_of_inconsistent
    [Rounding]
    {k : SampleKind}
    (hKind :
      kindOf (datatype0 m p) (datatype1 m p) = some (o, k))
    (hFew : nsamp o m p ≤ k.capacity)
    (hBad : Inconsistent o m p) :
    swapWavemsg2Makelocal host m p =
      (-2, localHeader host o m p (version0 m p)) := by
  unfold swapWavemsg2Makelocal
  rw [makelocalWavemsgVer_of_kind host o m p _ hKind,
    if_neg (not_lt.mpr hFew), if_pos hBad]

/- The exit for a message that is let through. -/
theorem swapWavemsg2Makelocal_of_consistent
    [Rounding]
    {k : SampleKind}
    (hKind :
      kindOf (datatype0 m p) (datatype1 m p) = some (o, k))
    (hFew : nsamp o m p ≤ k.capacity)
    (hGood : ¬ Inconsistent o m p) :
    swapWavemsg2Makelocal host m p =
      (0, localMessage host o m p (version0 m p) k) := by
  unfold swapWavemsg2Makelocal
  rw [makelocalWavemsgVer_of_kind host o m p _ hKind,
    if_neg (not_lt.mpr hFew), if_neg hGood]

/-
  The four exits: unknown datatype, too many samples,
  inconsistent header, success.
-/
theorem swapWavemsg2Makelocal_cases [Rounding] :
    (kindOf (datatype0 m p) (datatype1 m p) = none ∧
      swapWavemsg2Makelocal host m p = (-1, m)) ∨
    ∃ o k,
      kindOf (datatype0 m p) (datatype1 m p) = some (o, k) ∧
      (((k.capacity : Int) < nsamp o m p ∧
          swapWavemsg2Makelocal host m p =
            (-1, localHeader host o m p (version0 m p))) ∨
        (nsamp o m p ≤ k.capacity ∧ Inconsistent o m p ∧
          swapWavemsg2Makelocal host m p =
            (-2, localHeader host o m p (version0 m p))) ∨
        (nsamp o m p ≤ k.capacity ∧ ¬ Inconsistent o m p ∧
          swapWavemsg2Makelocal host m p =
            (0, localMessage host o m p (version0 m p) k))) := by
  cases hKind : kindOf (datatype0 m p) (datatype1 m p) with
  | none =>
      exact Or.inl ⟨rfl,
        makelocalWavemsgVer_of_unknown host m p _ hKind⟩
  | some ok =>
      obtain ⟨o, k⟩ := ok
      refine Or.inr ⟨o, k, rfl, ?_⟩
      have hResult :=
        makelocalWavemsgVer_of_kind host o m p
          (version0 m p) hKind
      by_cases hMany : (k.capacity : Int) < nsamp o m p
      · rw [if_pos hMany] at hResult
        exact Or.inl ⟨hMany, hResult⟩
      · rw [if_neg hMany] at hResult
        have hFew := not_lt.mp hMany
        by_cases hBad : Inconsistent o m p
        · rw [if_pos hBad] at hResult
          exact Or.inr (Or.inl ⟨hFew, hBad, hResult⟩)
        · rw [if_neg hBad] at hResult
          exact Or.inr (Or.inr ⟨hFew, hBad, hResult⟩)

/- Header bytes before the datatype are those of the header. -/
theorem localMessage_of_front
    {k : SampleKind}
    {i : Int}
    (hFront : i < p + 57) :
    localMessage host o m p v k i = localHeader host o m p v i := by
  unfold localMessage
  split
  · rename_i hEq
    rw [hEq, localHeader_self]
  · simp only [swapData]
    rw [ByteMem.set_of_ne _ _ (by omega),
      ByteMem.set_of_ne _ _ (by omega)]
    apply ByteMem.swapWords_of_outside
    left
    unfold samples
    omega

/- The bytes a message is made local in lie in the message. -/
theorem localMessage_of_outside
    {k : SampleKind}
    {i : Int}
    (hOut : i < p ∨ p + 64 + k.width * nsamp o m p ≤ i)
    (hNonneg : 0 ≤ nsamp o m p) :
    localMessage host o m p v k i = m i := by
  have hCount :
      ((nsamp o m p).toNat : Int) * k.width =
        k.width * nsamp o m p := by
    rw [Int.toNat_of_nonneg hNonneg, mul_comm]
  have hSize : 0 ≤ (k.width : Int) * nsamp o m p :=
    mul_nonneg (Int.natCast_nonneg _) hNonneg
  unfold localMessage
  split
  · rfl
  · simp only [swapData]
    rw [ByteMem.set_of_ne _ _ (by omega),
      ByteMem.set_of_ne _ _ (by omega),
      ByteMem.swapWords_of_outside]
    · exact localHeader_of_outside host o m p v (by omega)
    · unfold samples
      omega

/-
  A message that is not refused: the memory left behind has
  the host's reading of every header number equal to the
  message's own reading before, and the same codes.
-/
structure ReadsAs
    (host o : ByteOrder)
    (m m' : ByteMem)
    (p : Int) : Prop where
  nsamp : nsamp host m' p = nsamp o m p
  starttime : starttime host m' p = starttime o m p
  endtime : endtime host m' p = endtime o m p
  samprate : samprate host m' p = samprate o m p
  codes : ∀ i, p + 32 ≤ i → i < p + 57 → m' i = m i

theorem readsAs_localHeader :
    ReadsAs host o m (localHeader host o m p v) p where
  nsamp := nsamp_localHeader host o m p v
  starttime := starttime_localHeader host o m p v
  endtime := endtime_localHeader host o m p v
  samprate := samprate_localHeader host o m p v
  codes := by
    intro i hLow hHigh
    exact localHeader_of_outside host o m p v (by omega)

theorem readsAs_localMessage
    (k : SampleKind) :
    ReadsAs host o m (localMessage host o m p v k) p := by
  have hHeader := readsAs_localHeader host o m p v
  have hRead :
      ∀ (q : Int) (n : Nat), q + n ≤ p + 57 →
        (localMessage host o m p v k).read q n =
          (localHeader host o m p v).read q n := by
    intro q n hFront
    apply ByteMem.read_congr
    intro i _ hHigh
    exact localMessage_of_front host o m p v (by omega)
  constructor
  · rw [← hHeader.nsamp]
    unfold Trace2Header.nsamp
    rw [hRead _ _ (by omega)]
  · rw [← hHeader.starttime]
    unfold Trace2Header.starttime
    rw [hRead _ _ (by omega)]
  · rw [← hHeader.endtime]
    unfold Trace2Header.endtime
    rw [hRead _ _ (by omega)]
  · rw [← hHeader.samprate]
    unfold Trace2Header.samprate
    rw [hRead _ _ (by omega)]
  · intro i hLow hHigh
    rw [localMessage_of_front host o m p v (by omega)]
    exact hHeader.codes i hLow hHigh

/- The routine does not refuse with -1 exactly these. -/
theorem swapCode_ne_iff [Rounding] :
    (swapWavemsg2Makelocal host m p).1 ≠ -1 ↔
      ∃ o k,
        kindOf (datatype0 m p) (datatype1 m p) = some (o, k) ∧
          nsamp o m p ≤ k.capacity := by
  rcases swapWavemsg2Makelocal_cases host m p with
    ⟨hKind, hRes⟩ | ⟨o, k, hKind, hExit⟩
  · rw [hRes, hKind]
    simp
  · rw [hKind]
    rcases hExit with ⟨hMany, hRes⟩ | ⟨hFew, _, hRes⟩ |
      ⟨hFew, _, hRes⟩
    · rw [hRes]
      simp only [ne_eq, not_true_eq_false, false_iff,
        Option.some.injEq, Prod.mk.injEq, not_exists, not_and]
      rintro o' k' ⟨rfl, rfl⟩
      omega
    · rw [hRes]
      exact ⟨fun _ => ⟨o, k, rfl, hFew⟩, fun _ => by simp⟩
    · rw [hRes]
      exact ⟨fun _ => ⟨o, k, rfl, hFew⟩, fun _ => by simp⟩

/- What a message not refused is left as. -/
theorem readsAs_of_few
    [Rounding]
    {host o : ByteOrder}
    {m : ByteMem}
    {p : Int}
    {k : SampleKind}
    (hKind :
      kindOf (datatype0 m p) (datatype1 m p) = some (o, k))
    (hFew : nsamp o m p ≤ k.capacity) :
    ReadsAs host o m (swapWavemsg2Makelocal host m p).2 p := by
  unfold swapWavemsg2Makelocal
  rw [makelocalWavemsgVer_of_kind host o m p _ hKind,
    if_neg (by omega)]
  split
  · exact readsAs_localHeader host o m p _
  · exact readsAs_localMessage host o m p _ k

end TankConvertor
