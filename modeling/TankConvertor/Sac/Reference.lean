import TankConvertor.Scan.Accepted
import TankConvertor.Sac.Model

/-
  The reference time of the SAC header, read back as an
  instant, against the start time it was made from.

  The whole seconds are truncated to 64 bits and the ones
  that the milliseconds are counted from to 32 bits, both
  towards zero.  The milliseconds are a product of doubles,
  rounded to nearest before it is truncated.

  Key definitions include:
    * `SacHeader.referenceTime`
    * `SacHeader.Represents`
    * `ConvertsInRange`
    * `RightTime`

  Key theorems include:
    * `seconds_gmtime`
    * `referenceSecond_enrichSacStarttime`
    * `msecAfter_floor`
    * `reference_time_iff`
-/

------------------------------------------------------------
-- Instants
------------------------------------------------------------

namespace TankConvertor

attribute [local instance] Rounding.nearest

/- The instant that a broken-down time stands for. -/
def Tm.seconds (tm : Tm) : Int :=
  (daysBeforeYear (tm.tmYear + 1900) + tm.tmYday) *
      secondsPerDay +
    tm.tmHour * 3600 + tm.tmMin * 60 + tm.tmSec

/- `gmtime` inverts the calendar. -/
theorem seconds_gmtime
    (t : Int) :
    (gmtime t).seconds = t := by
  have hYear :
      yearOfDay (t / secondsPerDay) - 1900 + 1900 =
        yearOfDay (t / secondsPerDay) := by
    omega
  have hDay :
      daysBeforeYear (yearOfDay (t / secondsPerDay)) +
          (t / secondsPerDay -
            daysBeforeYear (yearOfDay (t / secondsPerDay))) =
        t / secondsPerDay := by
    omega
  simp only [gmtime, Tm.seconds]
  rw [hYear, hDay]
  unfold secondsPerDay
  omega

namespace SacHeader

/- The second that the reference fields name. -/
def referenceSecond (h : SacHeader) : Int :=
  (daysBeforeYear (h.int SacField.nzyear) +
        (h.int SacField.nzjday - 1)) *
      secondsPerDay +
    h.int SacField.nzhour * 3600 +
    h.int SacField.nzmin * 60 +
    h.int SacField.nzsec

/- The instant, milliseconds included. -/
def referenceTime (h : SacHeader) : ℚ :=
  h.referenceSecond + (h.int SacField.nzmsec : ℚ) / 1000

/- The instant is the time cut to whole milliseconds. -/
structure Represents (h : SacHeader) (t : ℚ) : Prop where
  nonneg : 0 ≤ h.int SacField.nzmsec
  few : h.int SacField.nzmsec ≤ 999
  before : h.referenceTime ≤ t
  within : t < h.referenceTime + 1 / 1000

end SacHeader

/- Years of 32-bit seconds are ordinary numbers. -/
theorem wrap32_tmYear
    {t : Int}
    (hLow : -(2 ^ 31) ≤ t)
    (hHigh : t < 2 ^ 31) :
    wrap32 ((gmtime t).tmYear + 1900) =
      (gmtime t).tmYear + 1900 := by
  have hYear :
      1900 ≤ yearOfDay (t / secondsPerDay) ∧
        yearOfDay (t / secondsPerDay) ≤ 2100 := by
    simp only [yearOfDay, secondsPerDay]
    constructor <;> split_ifs <;> omega
  simp only [gmtime]
  exact wrap32_of_mem (by omega) (by omega)

/- The truncated number fits a type of the range. -/
def InRange (bound : Int) (x : ExtRat) : Prop :=
  -bound ≤ ExtRat.trunc x.toRat ∧
    ExtRat.trunc x.toRat < bound

/- The milliseconds after a whole second, in doubles. -/
def msecAfter (t : ExtRat) (second : Int) : ExtRat :=
  Rounding.double
    (Rounding.double (t - ExtRat.ofInt second) *
      ExtRat.ofInt 1000)

/-
  Both conversions to `int32_t` are in range, and the time
  is one that `gmtime` has a date for.
-/
def ConvertsInRange (t : ExtRat) : Prop :=
  InRange (2 ^ 31) t ∧
    InRange (2 ^ 31) (msecAfter t (t.truncTo (2 ^ 31))) ∧
    GmtimeFits (t.truncTo (2 ^ 63))

section Fields

variable {h : SacHeader}
variable {t : ExtRat}

/- The whole seconds are those of the 64-bit conversion. -/
theorem referenceSecond_enrichSacStarttime
    (hLow : -(2 ^ 31) ≤ t.truncTo (2 ^ 63))
    (hHigh : t.truncTo (2 ^ 63) < 2 ^ 31) :
    (enrichSacStarttime h t).referenceSecond =
      t.truncTo (2 ^ 63) := by
  have hYear := wrap32_tmYear hLow hHigh
  have hSeconds := seconds_gmtime (t.truncTo (2 ^ 63))
  unfold Tm.seconds at hSeconds
  simp only [enrichSacStarttime, SacHeader.referenceSecond,
    SacHeader.setInt, SacField.nzyear, SacField.nzjday,
    SacField.nzhour, SacField.nzmin, SacField.nzsec,
    SacField.nzmsec, hYear]
  simpa using hSeconds

/- The milliseconds, from the 32-bit conversion. -/
theorem nzmsec_enrichSacStarttime :
    (enrichSacStarttime h t).int SacField.nzmsec =
      (msecAfter t (t.truncTo (2 ^ 31))).truncTo (2 ^ 31) := by
  simp [enrichSacStarttime, SacHeader.setInt, msecAfter]

end Fields

------------------------------------------------------------
-- When The Instant Is Right
------------------------------------------------------------

section Times

variable {t : ExtRat}

/- Small numbers are no infinities in the range of doubles. -/
theorem small_in_range
    {q : ℚ}
    (hSmall : |q| ≤ 2 ^ 53) :
    |q| < 2 ^ binary64.top := by
  refine hSmall.trans_lt ?_
  rw [← zpow_natCast]
  exact zpow_lt_zpow_right₀ (by norm_num) (by decide)

/-
  The part of a double after the point is one: it has the
  double's own last digit, and no more digits.
-/
theorem holds_fract
    {q : ℚ}
    (hNonneg : 0 ≤ q)
    (hHolds : binary64.Holds q) :
    binary64.Holds (q - ⌊q⌋) := by
  have hPart : q - ⌊q⌋ ≤ q := by
    have : (0 : ℚ) ≤ ⌊q⌋ := by
      exact_mod_cast Int.floor_nonneg.mpr hNonneg
    linarith
  have hFract : 0 ≤ q - ⌊q⌋ := sub_nonneg.mpr (Int.floor_le q)
  obtain ⟨m, e, hFew, hLeast, hq⟩ := hHolds
  have hUnit : (0 : ℚ) < 2 ^ e := by positivity
  rcases le_or_gt 0 e with hWhole | hPoint
  · -- without digits after the point nothing is left
    have hInt : ((m * 2 ^ e.toNat : Int) : ℚ) = q := by
      rw [hq]
      push_cast
      rw [← zpow_natCast, Int.toNat_of_nonneg hWhole]
    refine ⟨0, 0, by decide, by decide, ?_⟩
    rw [← hInt, Int.floor_intCast]
    simp
  · have hCast :
        ((m - ⌊q⌋ * 2 ^ (-e).toNat : Int) : ℚ) * 2 ^ e =
          q - ⌊q⌋ := by
      push_cast
      rw [sub_mul, ← hq, mul_assoc, ← zpow_natCast,
        Int.toNat_of_nonneg (by omega), ← zpow_add₀ (by norm_num)]
      simp
    refine ⟨_, e, ?_, hLeast, hCast.symm⟩
    have hLow : 0 ≤ m - ⌊q⌋ * 2 ^ (-e).toNat := by
      rw [← hCast] at hFract
      exact_mod_cast nonneg_of_mul_nonneg_left hFract hUnit
    have hHigh : m - ⌊q⌋ * 2 ^ (-e).toNat ≤ m := by
      have hLe := hPart.trans_eq hq
      rw [← hCast] at hLe
      exact_mod_cast le_of_mul_le_mul_right hLe hUnit
    rw [abs_of_nonneg hLow]
    exact hHigh.trans_lt ((le_abs_self m).trans_lt hFew)

/- The difference to the whole second is not rounded. -/
theorem round_sub_floor
    (hFinite : t.IsFinite)
    (hHolds : binary64.Holds t.toRat)
    (hNonneg : 0 ≤ t.toRat) :
    (binary64.round (t - ExtRat.ofInt ⌊t.toRat⌋)).IsFinite ∧
      (binary64.round (t - ExtRat.ofInt ⌊t.toRat⌋)).toRat =
        Int.fract t.toRat := by
  have hSub :=
    ExtRat.sub_finite hFinite
      (ExtRat.isFinite_ofInt ⌊t.toRat⌋)
  have hFract :
      (t - ExtRat.ofInt ⌊t.toRat⌋).toRat =
        Int.fract t.toRat := by
    rw [hSub.2, ExtRat.toRat_ofInt, Int.self_sub_floor]
  rw [← hFract]
  refine BinaryFormat.round_held hSub.1 ?_ (small_in_range ?_)
  · rw [hSub.2, ExtRat.toRat_ofInt]
    exact holds_fract hNonneg hHolds
  · rw [hFract, abs_of_nonneg (Int.fract_nonneg _)]
    exact (Int.fract_lt_one _).le.trans (by norm_num)

/- Whole milliseconds are doubles. -/
theorem nearest_msec
    {n : Int}
    (hNonneg : 0 ≤ n)
    (hFew : n ≤ 1000) :
    binary64.nearest n = n := by
  refine BinaryFormat.nearest_of_holds
    ⟨n, 0, ?_, by decide, by simp⟩
  rw [abs_of_nonneg hNonneg]
  exact hFew.trans_lt (by decide)

/- So only the product is rounded. -/
theorem msecAfter_floor
    (hFinite : t.IsFinite)
    (hHolds : binary64.Holds t.toRat)
    (hNonneg : 0 ≤ t.toRat) :
    (msecAfter t ⌊t.toRat⌋).IsFinite ∧
      (msecAfter t ⌊t.toRat⌋).toRat =
        binary64.nearest (Int.fract t.toRat * 1000) := by
  have hLow := Int.fract_nonneg t.toRat
  have hHigh := Int.fract_lt_one t.toRat
  have hKept := round_sub_floor hFinite hHolds hNonneg
  have hMul :=
    ExtRat.mul_finite hKept.1 (ExtRat.isFinite_ofInt 1000)
  have hProduct :
      (binary64.round (t - ExtRat.ofInt ⌊t.toRat⌋) *
            ExtRat.ofInt 1000).toRat =
        Int.fract t.toRat * 1000 := by
    rw [hMul.2, hKept.2, ExtRat.toRat_ofInt]
    norm_num
  have hSmall :
      binary64.nearest (Int.fract t.toRat * 1000) ≤ 1000 := by
    calc
      binary64.nearest (Int.fract t.toRat * 1000)
        ≤ binary64.nearest ((1000 : Int) : ℚ) :=
          BinaryFormat.nearest_mono (by push_cast; linarith)
      _ = ((1000 : Int) : ℚ) :=
          nearest_msec (by decide) le_rfl
      _ = 1000 := by norm_num
  have hNear :
      0 ≤ binary64.nearest (Int.fract t.toRat * 1000) :=
    BinaryFormat.nearest_nonneg (by linarith)
  have hRound :=
    BinaryFormat.round_finite (F := binary64) hMul.1
      (by
        rw [hProduct]
        apply small_in_range
        rw [abs_of_nonneg hNear]
        linarith)
  rw [hProduct] at hRound
  exact hRound

/- What the double product of the milliseconds is cut to. -/
theorem floor_nearest_msec
    {q : ℚ}
    (hLow : 0 ≤ q)
    (hHigh : q < 1000) :
    (q < ⌊q⌋ + 1 - binary64.halfStep ⌊q⌋.toNat ∧
        ⌊binary64.nearest q⌋ = ⌊q⌋) ∨
      (¬ q < ⌊q⌋ + 1 - binary64.halfStep ⌊q⌋.toNat ∧
        ⌊binary64.nearest q⌋ = ⌊q⌋ + 1) := by
  have hNonneg : 0 ≤ ⌊q⌋ := Int.floor_nonneg.mpr hLow
  have hFew : ⌊q⌋ < 1000 :=
    Int.floor_lt.mpr (by exact_mod_cast hHigh)
  have hCast : ((⌊q⌋.toNat : Nat) : ℚ) = ⌊q⌋ := by
    exact_mod_cast Int.toNat_of_nonneg hNonneg
  have hAbove : (⌊q⌋ : ℚ) ≤ binary64.nearest q := by
    rw [← nearest_msec hNonneg (by omega : ⌊q⌋ ≤ 1000)]
    exact BinaryFormat.nearest_mono (Int.floor_le q)
  have hBelow : binary64.nearest q ≤ ⌊q⌋ + 1 := by
    have hNext :=
      nearest_msec (by omega : 0 ≤ ⌊q⌋ + 1) (by omega)
    push_cast at hNext
    rw [← hNext]
    exact BinaryFormat.nearest_mono (Int.lt_floor_add_one q).le
  have hIff :=
    BinaryFormat.nearest_lt_iff (F := binary64) (q := q)
      (n := ⌊q⌋.toNat)
      ((show ⌊q⌋.toNat < 1000 by omega).trans (by decide))
      (by decide) (hCast ▸ Int.floor_le q)
      (hCast ▸ Int.lt_floor_add_one q)
  rw [hCast] at hIff
  by_cases hShort : q < ⌊q⌋ + 1 - binary64.halfStep ⌊q⌋.toNat
  · exact Or.inl ⟨hShort,
      Int.floor_eq_iff.mpr ⟨hAbove, hIff.mpr hShort⟩⟩
  · have hReach := not_lt.mp (mt hIff.mp hShort)
    refine Or.inr ⟨hShort, Int.floor_eq_iff.mpr ⟨?_, ?_⟩⟩
    · push_cast
      exact hReach
    · push_cast
      linarith

/- Two conversions that agree, and the fields they make. -/
theorem fields_of_trunc
    (h : SacHeader)
    (hFinite : t.IsFinite)
    {second msec : Int}
    (hSecond : ExtRat.trunc t.toRat = second)
    (hLow : -(2 ^ 31) ≤ second)
    (hHigh : second < 2 ^ 31)
    (hWhole : (msecAfter t second).IsFinite)
    (hMsec : ExtRat.trunc (msecAfter t second).toRat = msec)
    (hNonneg : 0 ≤ msec)
    (hFew : msec ≤ 1000) :
    (enrichSacStarttime h t).int SacField.nzmsec = msec ∧
      (enrichSacStarttime h t).referenceTime =
        second + (msec : ℚ) / 1000 ∧
      ConvertsInRange t := by
  have hWide : t.truncTo (2 ^ 63) = second := by
    rw [ExtRat.truncTo_eq_trunc hFinite (by omega) (by omega),
      hSecond]
  have hNarrow : t.truncTo (2 ^ 31) = second := by
    rw [ExtRat.truncTo_eq_trunc hFinite (by omega) (by omega),
      hSecond]
  have hRef :
      (enrichSacStarttime h t).referenceSecond = second := by
    rw [referenceSecond_enrichSacStarttime (by omega) (by omega),
      hWide]
  have hField :
      (enrichSacStarttime h t).int SacField.nzmsec = msec := by
    rw [nzmsec_enrichSacStarttime, hNarrow,
      ExtRat.truncTo_eq_trunc hWhole (by omega) (by omega), hMsec]
  refine ⟨hField, ?_, ⟨by omega, by omega⟩, ?_, ?_⟩
  · rw [SacHeader.referenceTime, hRef, hField]
  · rw [hNarrow]
    exact ⟨by omega, by omega⟩
  · rw [hWide]
    exact gmtimeFits_of_small (by omega) (by omega)

/-
  The start times that come out right: seconds that 32 bits
  hold, without a fraction, or from the epoch on with
  milliseconds not so close below a whole number of them
  that the product of doubles is rounded up to it.
-/
def RightTime (q : ℚ) : Prop :=
  -2 ^ 31 ≤ q ∧ q < 2 ^ 31 ∧
    ((∃ n : ℤ, q = n) ∨
      0 ≤ q ∧
        Int.fract q * 1000 <
          ⌊Int.fract q * 1000⌋ + 1 -
            binary64.halfStep ⌊Int.fract q * 1000⌋.toNat)

section Later

variable {h : SacHeader}
variable (hFinite : t.IsFinite)
variable (hHolds : binary64.Holds t.toRat)
variable (hNonneg : 0 ≤ t.toRat)
variable (hHigh : t.toRat < 2 ^ 31)

include hFinite hHolds hNonneg hHigh

/- From the epoch on, the fields follow the double product. -/
theorem fields_from_epoch
    {msec : Int}
    (hMsec :
      ⌊binary64.nearest (Int.fract t.toRat * 1000)⌋ = msec)
    (hFew : msec ≤ 1000) :
    (enrichSacStarttime h t).int SacField.nzmsec = msec ∧
      (enrichSacStarttime h t).referenceTime =
        ⌊t.toRat⌋ + (msec : ℚ) / 1000 ∧
      ConvertsInRange t := by
  have hBelow : ⌊t.toRat⌋ < 2 ^ 31 :=
    Int.floor_lt.mpr (by exact_mod_cast hHigh)
  have hPos : 0 ≤ ⌊t.toRat⌋ := Int.floor_nonneg.mpr hNonneg
  have hProduct := msecAfter_floor hFinite hHolds hNonneg
  have hNear :
      0 ≤ binary64.nearest (Int.fract t.toRat * 1000) :=
    BinaryFormat.nearest_nonneg
      (mul_nonneg (Int.fract_nonneg _) (by norm_num))
  refine fields_of_trunc h hFinite
    (ExtRat.trunc_of_nonneg hNonneg) (by omega) hBelow
    hProduct.1 ?_ ?_ hFew
  · rw [hProduct.2, ExtRat.trunc_of_nonneg hNear, hMsec]
  · rw [← hMsec]
    exact Int.floor_nonneg.mpr hNear

theorem represents_from_epoch_iff :
    (enrichSacStarttime h t).Represents t.toRat ∧
        ConvertsInRange t ↔
      Int.fract t.toRat * 1000 <
        ⌊Int.fract t.toRat * 1000⌋ + 1 -
          binary64.halfStep
            ⌊Int.fract t.toRat * 1000⌋.toNat := by
  have hLow : 0 ≤ Int.fract t.toRat * 1000 :=
    mul_nonneg (Int.fract_nonneg _) (by norm_num)
  have hSmall : Int.fract t.toRat * 1000 < 1000 := by
    linarith [Int.fract_lt_one t.toRat]
  have hFew : ⌊Int.fract t.toRat * 1000⌋ < 1000 :=
    Int.floor_lt.mpr (by exact_mod_cast hSmall)
  have hZero : 0 ≤ ⌊Int.fract t.toRat * 1000⌋ :=
    Int.floor_nonneg.mpr hLow
  have hLe := Int.floor_le (Int.fract t.toRat * 1000)
  have hLt := Int.lt_floor_add_one (Int.fract t.toRat * 1000)
  have hSplit := Int.floor_add_fract t.toRat
  rcases floor_nearest_msec hLow hSmall with
    ⟨hShort, hMsec⟩ | ⟨hClose, hMsec⟩
  · rcases fields_from_epoch (h := h) hFinite hHolds hNonneg hHigh
        hMsec (by omega) with
      ⟨hField, hTime, hRange⟩
    refine ⟨fun _ => hShort, fun _ => ⟨⟨?_, ?_, ?_, ?_⟩, hRange⟩⟩
    · omega
    · omega
    · rw [hTime]
      linarith
    · rw [hTime]
      linarith
  · rcases fields_from_epoch (h := h) hFinite hHolds hNonneg hHigh
        hMsec (by omega) with
      ⟨hField, hTime, hRange⟩
    refine ⟨fun hRep => ?_, fun hShort => absurd hShort hClose⟩
    have hBefore := hRep.1.before
    rw [hTime] at hBefore
    push_cast at hBefore
    linarith

end Later

/- A whole second of 32 bits has no milliseconds. -/
theorem represents_of_whole
    (h : SacHeader)
    (hFinite : t.IsFinite)
    {n : Int}
    (hWhole : t.toRat = n)
    (hLow : -2 ^ 31 ≤ t.toRat)
    (hHigh : t.toRat < 2 ^ 31) :
    (enrichSacStarttime h t).Represents t.toRat ∧
      ConvertsInRange t := by
  have hLowInt : -(2 ^ 31) ≤ n := by
    rw [hWhole] at hLow
    exact_mod_cast hLow
  have hHighInt : n < 2 ^ 31 := by
    rw [hWhole] at hHigh
    exact_mod_cast hHigh
  have hZero : binary64.Holds 0 :=
    ⟨0, 0, by decide, by decide, by simp⟩
  have hRange : |(0 : ℚ)| < 2 ^ binary64.top :=
    small_in_range (by norm_num)
  have hSub := ExtRat.sub_finite hFinite (ExtRat.isFinite_ofInt n)
  have hNone : (t - ExtRat.ofInt n).toRat = 0 := by
    rw [hSub.2, hWhole, ExtRat.toRat_ofInt, sub_self]
  have hKept :=
    BinaryFormat.round_held (F := binary64) hSub.1
      (by rw [hNone]; exact hZero) (by rw [hNone]; exact hRange)
  have hMul :=
    ExtRat.mul_finite hKept.1 (ExtRat.isFinite_ofInt 1000)
  rw [hKept.2, hNone, zero_mul] at hMul
  have hMsec :=
    BinaryFormat.round_held (F := binary64) hMul.1
      (by rw [hMul.2]; exact hZero) (by rw [hMul.2]; exact hRange)
  have hNoMsec : ExtRat.trunc (msecAfter t n).toRat = 0 :=
    (congrArg ExtRat.trunc (hMsec.2.trans hMul.2)).trans rfl
  have hTrunc : ExtRat.trunc t.toRat = n := by
    rw [hWhole, ExtRat.trunc_intCast]
  rcases fields_of_trunc h hFinite hTrunc hLowInt hHighInt
      hMsec.1 hNoMsec le_rfl (by norm_num) with
    ⟨hField, hTime, hConverts⟩
  refine ⟨⟨?_, ?_, ?_, ?_⟩, hConverts⟩
  · omega
  · omega
  · rw [hTime, hWhole]
    simp
  · rw [hTime, hWhole]
    simp

/- A time before the epoch is right without a fraction only. -/
theorem whole_of_represents
    (h : SacHeader)
    (hFinite : t.IsFinite)
    (hNeg : t.toRat < 0)
    (hIn : InRange (2 ^ 31) t)
    (hRep : (enrichSacStarttime h t).Represents t.toRat) :
    t.toRat = ⌈t.toRat⌉ := by
  have hTrunc := ExtRat.trunc_of_nonpos hNeg.le
  have hLow : -(2 ^ 31) ≤ ⌈t.toRat⌉ := hTrunc ▸ hIn.1
  have hHigh : ⌈t.toRat⌉ < 2 ^ 31 := hTrunc ▸ hIn.2
  have hWide : t.truncTo (2 ^ 63) = ⌈t.toRat⌉ := by
    rw [ExtRat.truncTo_eq_trunc hFinite (by omega) (by omega),
      hTrunc]
  have hSecond :
      (enrichSacStarttime h t).referenceSecond = ⌈t.toRat⌉ := by
    rw [referenceSecond_enrichSacStarttime (by omega) (by omega),
      hWide]
  have hMsec :
      (0 : ℚ) ≤
        (enrichSacStarttime h t).int SacField.nzmsec := by
    exact_mod_cast hRep.nonneg
  have hBefore := hRep.before
  rw [SacHeader.referenceTime, hSecond] at hBefore
  have hCeil := Int.le_ceil t.toRat
  linarith

theorem rightTime_of_represents
    (h : SacHeader)
    (hFinite : t.IsFinite)
    (hHolds : binary64.Holds t.toRat)
    (hRep :
      (enrichSacStarttime h t).Represents t.toRat ∧
        ConvertsInRange t) :
    RightTime t.toRat := by
  have hIn : InRange (2 ^ 31) t := hRep.2.1
  rcases le_or_gt 0 t.toRat with hNonneg | hNeg
  · have hHigh : ⌊t.toRat⌋ < 2 ^ 31 :=
      ExtRat.trunc_of_nonneg hNonneg ▸ hIn.2
    have hBelow : t.toRat < 2 ^ 31 := by
      exact_mod_cast Int.floor_lt.mp hHigh
    exact ⟨by linarith, hBelow, Or.inr ⟨hNonneg,
      (represents_from_epoch_iff hFinite hHolds hNonneg
        hBelow).mp hRep⟩⟩
  · have hWhole :=
      whole_of_represents h hFinite hNeg hIn hRep.1
    have hLow : -(2 ^ 31) ≤ ⌈t.toRat⌉ :=
      ExtRat.trunc_of_nonpos hNeg.le ▸ hIn.1
    refine ⟨?_, by linarith, Or.inl ⟨_, hWhole⟩⟩
    rw [hWhole]
    exact_mod_cast hLow

/-
  Of all finite doubles, those times come out right that 32
  bits hold and that are whole, or not before the epoch and
  not rounded up to the next millisecond; no conversion is
  out of range for these, and `gmtime` has a date for them.
-/
theorem reference_time_iff
    (h : SacHeader)
    {bits : Nat}
    (hFinite : (ExtRat.ofBits64 bits).IsFinite) :
    (enrichSacStarttime h (.ofBits64 bits)).Represents
          (ExtRat.ofBits64 bits).toRat ∧
        ConvertsInRange (.ofBits64 bits) ↔
      RightTime (ExtRat.ofBits64 bits).toRat := by
  have hHolds := BinaryFormat.holds_ofBits64 bits
  refine ⟨rightTime_of_represents h hFinite hHolds, ?_⟩
  rintro ⟨hLow, hHigh, ⟨n, hWhole⟩ | ⟨hNonneg, hShort⟩⟩
  · exact represents_of_whole h hFinite hWhole hLow hHigh
  · exact (represents_from_epoch_iff hFinite hHolds hNonneg
      hHigh).mpr hShort

end Times

/-
  A whole second long before the epoch, and the same time
  of a half after it.
-/
theorem reference_time_right :
    ((enrichSacStarttime initHeader
            (.ofBits64 0xC0F5180000000000)).Represents (-86400) ∧
        ConvertsInRange (.ofBits64 0xC0F5180000000000)) ∧
      (ExtRat.ofBits64 0x3FE0000000000000).toRat = 1 / 2 ∧
      RightTime (1 / 2) := by
  have hTime :
      ExtRat.ofBits64 0xC0F5180000000000 = .fin (-86400) := by
    decide +kernel
  have hFinite :
      (ExtRat.ofBits64 0xC0F5180000000000).IsFinite := by
    rw [hTime]
    trivial
  refine ⟨?_, by decide +kernel, ?_⟩
  · have hBoth :=
      (reference_time_iff initHeader hFinite).mpr
        (by
          rw [hTime]
          exact ⟨by norm_num, by norm_num,
            Or.inl ⟨-86400, by norm_num⟩⟩)
    rw [hTime] at hBoth
    rw [hTime]
    exact hBoth
  · refine ⟨by norm_num, by norm_num, Or.inr ⟨by norm_num, ?_⟩⟩
    decide +kernel

------------------------------------------------------------
-- Times That Come Out Wrong
------------------------------------------------------------

/- One sample, with the bytes of the time it was taken. -/
def sampledAt (time : List UInt8) : List UInt8 :=
  List.replicate 4 0 ++ [1, 0, 0, 0] ++ time ++ time ++
    [0, 0, 0, 0, 0, 0, 0xF0, 0x3F] ++ List.replicate 23 0 ++
    [ch '2', ch '0', ch 'i', ch '4'] ++ List.replicate 5 0 ++
    List.replicate 4 0

/- A message with this time passes all checks. -/
def AcceptedAt (time : List UInt8) (t : ExtRat) : Prop :=
  let s := scanInit (mapTank (sampledAt time) (fun _ => 0))
  swapCode .little s = 0 ∧
    Trace2Header.starttime .little (swapMem .little s) 0 = t

instance (time : List UInt8) (t : ExtRat) :
    Decidable (AcceptedAt time t) := by
  unfold AcceptedAt
  infer_instance

/-
  Half a second before the epoch, `2^31` seconds after it,
  and 0.29 seconds, whose product is rounded up to 290: all
  three times are accepted, and none is represented.
-/
theorem wrong_reference_times :
    (AcceptedAt [0, 0, 0, 0, 0, 0, 0xE0, 0xBF]
          (.fin (-1 / 2)) ∧
        ¬ (enrichSacStarttime initHeader
            (.fin (-1 / 2))).Represents (-1 / 2)) ∧
      AcceptedAt [0, 0, 0, 0, 0, 0, 0xE0, 0x41]
          (ExtRat.ofInt (2 ^ 31)) ∧
        ¬ (enrichSacStarttime initHeader
            (ExtRat.ofInt (2 ^ 31))).Represents (2 ^ 31) ∧
      AcceptedAt
          [0x8F, 0xC2, 0xF5, 0x28, 0x5C, 0x8F, 0xD2, 0x3F]
          (.ofBits64 0x3FD28F5C28F5C28F) ∧
        ¬ (enrichSacStarttime initHeader
            (.ofBits64 0x3FD28F5C28F5C28F)).Represents
              (ExtRat.ofBits64 0x3FD28F5C28F5C28F).toRat := by
  refine ⟨⟨by decide +kernel, ?_⟩, by decide +kernel, ?_,
    by decide +kernel, ?_⟩
  · intro hRep
    exact absurd hRep.nonneg (by decide +kernel)
  · intro hRep
    exact absurd hRep.nonneg (by decide +kernel)
  · intro hRep
    exact absurd hRep.before (by decide +kernel)

end TankConvertor
