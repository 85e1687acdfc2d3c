import TankConvertor.Time.Model
import TankConvertor.Sac.Reference

/-
  The loops over cycles, years and months end at the date of
  the civil calendar, before the epoch as behind it.

  Key definitions include:
    * `DateOf`

  Key theorems include:
    * `yearOfDay_unique`
    * `dateOfDay_spec`
    * `msGmtime64_some`
    * `ms_gmtime64_calendar`
-/

------------------------------------------------------------
-- Years
------------------------------------------------------------

namespace TankConvertor

theorem lengthOfYear_bounds
    (leap : Bool) :
    365 ≤ lengthOfYear leap ∧ lengthOfYear leap ≤ 366 := by
  cases leap <;> decide

/- A year is as long as its leap day says. -/
theorem daysBeforeYear_succ
    (year : Int) :
    daysBeforeYear (year + 1) =
      daysBeforeYear year + lengthOfYear (isLeap (year - 1900)) := by
  have hYear : year - 1900 + 1900 = year := by omega
  cases hLeap : isLeap (year - 1900) with
  | false =>
      simp only [isLeap, hYear, decide_eq_false_iff_not] at hLeap
      simp only [daysBeforeYear, lengthOfYear]
      omega
  | true =>
      simp only [isLeap, hYear, decide_eq_true_eq] at hLeap
      simp only [daysBeforeYear, lengthOfYear]
      omega

theorem daysBeforeYear_add_cycles
    (year cycles : Int) :
    daysBeforeYear (year + cycles * yearsInGregorianCycle) =
      daysBeforeYear year + cycles * daysInGregorianCycle := by
  simp only [daysBeforeYear, yearsInGregorianCycle,
    daysInGregorianCycle]
  omega

theorem daysBeforeYear_mono
    {a b : Int}
    (hLt : a < b) :
    daysBeforeYear a + 365 ≤ daysBeforeYear b := by
  unfold daysBeforeYear
  omega

/- There is one year for a day. -/
theorem yearOfDay_unique
    {day year : Int}
    (hFrom : daysBeforeYear year ≤ day)
    (hTo : day < daysBeforeYear (year + 1)) :
    yearOfDay day = year := by
  rcases yearOfDay_spec day with ⟨hLow, hHigh⟩
  rcases lt_trichotomy (yearOfDay day) year with hLt | hEq | hGt
  · rcases eq_or_lt_of_le (Int.add_one_le_of_lt hLt) with hNext | hFar
    · rw [hNext] at hHigh
      omega
    · have hMono := daysBeforeYear_mono hFar
      omega
  · exact hEq
  · rcases eq_or_lt_of_le (Int.add_one_le_of_lt hGt) with hNext | hFar
    · rw [hNext] at hTo
      omega
    · have hMono := daysBeforeYear_mono hFar
      omega

/- Forward, the days of the year are what is left. -/
theorem yearsUp_spec
    (fuel : Nat)
    (m year : Int)
    (hFuel : m ≤ fuel)
    (hPos : 0 ≤ m) :
    0 ≤ (yearsUp fuel m year).1 ∧
      (yearsUp fuel m year).1 <
        lengthOfYear (isLeap (yearsUp fuel m year).2) ∧
      daysBeforeYear ((yearsUp fuel m year).2 + 1900) +
          (yearsUp fuel m year).1 =
        daysBeforeYear (year + 1900) + m := by
  induction fuel generalizing m year with
  | zero =>
      have hLen := lengthOfYear_bounds (isLeap year)
      have hZero : m < lengthOfYear (isLeap year) := by omega
      exact ⟨hPos, hZero, rfl⟩
  | succ fuel ih =>
      have hLen := lengthOfYear_bounds (isLeap year)
      unfold yearsUp
      split
      case isTrue hMore =>
        have hNext := daysBeforeYear_succ (year + 1900)
        rw [Int.add_sub_cancel] at hNext
        have hRest := ih (m - lengthOfYear (isLeap year))
          (year + 1) (by omega) (by omega)
        rw [Int.add_right_comm year 1 1900] at hRest
        refine ⟨hRest.1, hRest.2.1, ?_⟩
        rw [hRest.2.2, hNext]
        omega
      case isFalse hDone =>
        exact ⟨hPos, not_le.mp hDone, rfl⟩

/- Backward, they are counted from the end of the year. -/
theorem yearsDown_spec
    (fuel : Nat)
    (m year : Int)
    (hFuel : -m ≤ fuel)
    (hNeg : m < 0) :
    (yearsDown fuel m year).1 < 0 ∧
      -lengthOfYear (isLeap (yearsDown fuel m year).2) ≤
        (yearsDown fuel m year).1 ∧
      daysBeforeYear ((yearsDown fuel m year).2 + 1 + 1900) +
          (yearsDown fuel m year).1 =
        daysBeforeYear (year + 1 + 1900) + m := by
  induction fuel generalizing m year with
  | zero => omega
  | succ fuel ih =>
      have hLen := lengthOfYear_bounds (isLeap year)
      unfold yearsDown
      split
      case isTrue hMore =>
        have hNext := daysBeforeYear_succ (year + 1900)
        rw [Int.add_sub_cancel] at hNext
        have hRest := ih (m + lengthOfYear (isLeap year))
          (year - 1) (by omega) (by omega)
        rw [Int.sub_add_cancel] at hRest
        refine ⟨hRest.1, hRest.2.1, ?_⟩
        rw [hRest.2.2, Int.add_right_comm year 1 1900, hNext]
        omega
      case isFalse hDone =>
        exact ⟨hNeg, not_lt.mp hDone, rfl⟩

------------------------------------------------------------
-- Months
------------------------------------------------------------

theorem julianDays_succ
    (leap : Bool)
    {mon : Nat}
    (hLt : mon < 11) :
    (julianDaysByMonth leap).getD (mon + 1) 0 =
      (julianDaysByMonth leap).getD mon 0 +
        (daysInMonth leap).getD mon 0 := by
  cases leap <;> interval_cases mon <;> rfl

theorem julianDays_last
    (leap : Bool) :
    (julianDaysByMonth leap).getD 11 0 +
        (daysInMonth leap).getD 11 0 =
      lengthOfYear leap := by
  cases leap <;> rfl

theorem monthsUp_spec
    (leap : Bool)
    (fuel : Nat)
    (m : Int)
    (mon : Nat)
    (hFuel : 12 ≤ mon + fuel)
    (hMon : mon < 12)
    (hPos : 0 ≤ m)
    (hYear :
      (julianDaysByMonth leap).getD mon 0 + m < lengthOfYear leap) :
    (monthsUp leap fuel m mon).2 < 12 ∧
      0 ≤ (monthsUp leap fuel m mon).1 ∧
      (monthsUp leap fuel m mon).1 <
        (daysInMonth leap).getD (monthsUp leap fuel m mon).2 0 ∧
      (julianDaysByMonth leap).getD (monthsUp leap fuel m mon).2 0 +
          (monthsUp leap fuel m mon).1 =
        (julianDaysByMonth leap).getD mon 0 + m := by
  induction fuel generalizing m mon with
  | zero => omega
  | succ fuel ih =>
      unfold monthsUp
      split
      case isTrue hMore =>
        have hBefore : mon < 11 := by
          by_contra hLast
          obtain rfl : mon = 11 := by omega
          have hEnd := julianDays_last leap
          omega
        have hNext := julianDays_succ leap hBefore
        have hRest := ih
          (m - (daysInMonth leap).getD mon 0) (mon + 1)
          (by omega) (by omega) (by omega) (by omega)
        refine ⟨hRest.1, hRest.2.1, hRest.2.2.1, ?_⟩
        rw [hRest.2.2.2, hNext]
        omega
      case isFalse hDone =>
        exact ⟨hMon, hPos, not_le.mp hDone, rfl⟩

theorem monthsDown_spec
    (leap : Bool)
    (fuel : Nat)
    (m : Int)
    (mon : Nat)
    (hFuel : mon < fuel)
    (hMon : mon < 12)
    (hNeg : m < 0)
    (hYear :
      0 ≤ (julianDaysByMonth leap).getD mon 0 +
        (daysInMonth leap).getD mon 0 + m) :
    (monthsDown leap fuel m mon).2 < 12 ∧
      (monthsDown leap fuel m mon).1 < 0 ∧
      -(daysInMonth leap).getD (monthsDown leap fuel m mon).2 0 ≤
        (monthsDown leap fuel m mon).1 ∧
      (julianDaysByMonth leap).getD
            (monthsDown leap fuel m mon).2 0 +
          (daysInMonth leap).getD
            (monthsDown leap fuel m mon).2 0 +
          (monthsDown leap fuel m mon).1 =
        (julianDaysByMonth leap).getD mon 0 +
          (daysInMonth leap).getD mon 0 + m := by
  induction fuel generalizing m mon with
  | zero => omega
  | succ fuel ih =>
      unfold monthsDown
      split
      case isTrue hMore =>
        have hFirst : mon ≠ 0 := by
          rintro rfl
          have hZero : (julianDaysByMonth leap).getD 0 0 = 0 := by
            cases leap <;> rfl
          omega
        obtain ⟨before, rfl⟩ : ∃ b, mon = b + 1 :=
          ⟨mon - 1, by omega⟩
        have hNext := julianDays_succ leap
          (by omega : before < 11)
        have hRest := ih
          (m + (daysInMonth leap).getD (before + 1) 0) before
          (by omega) (by omega) (by omega) (by omega)
        rw [Nat.add_sub_cancel]
        refine ⟨hRest.1, hRest.2.1, hRest.2.2.1, ?_⟩
        rw [hRest.2.2.2, hNext]
        omega
      case isFalse hDone =>
        exact ⟨hMon, hNeg, not_lt.mp hDone, rfl⟩

------------------------------------------------------------
-- Dates
------------------------------------------------------------

/- Year, month and day in the month, from 0, of a day. -/
structure DateOf
    (tday : Int)
    (date : Int × Nat × Int) :
    Prop where
  year : date.1 = yearOfDay tday - 1900
  month : date.2.1 < 12
  first : 0 ≤ date.2.2
  inside :
    date.2.2 < (daysInMonth (isLeap date.1)).getD date.2.1 0
  yday :
    (julianDaysByMonth (isLeap date.1)).getD date.2.1 0 +
        date.2.2 =
      tday - daysBeforeYear (yearOfDay tday)

/- From the days behind the start of the year. -/
theorem dateOf_monthsUp
    {tday m year : Int}
    (hLow : 0 ≤ m)
    (hHigh : m < lengthOfYear (isLeap year))
    (hSum : daysBeforeYear (year + 1900) + m = tday) :
    DateOf tday
      (year, (monthsUp (isLeap year) 12 m 0).2,
        (monthsUp (isLeap year) 12 m 0).1) := by
  have hNext := daysBeforeYear_succ (year + 1900)
  rw [Int.add_sub_cancel] at hNext
  have hYear : yearOfDay tday = year + 1900 :=
    yearOfDay_unique (by omega) (by omega)
  have hFirst : (julianDaysByMonth (isLeap year)).getD 0 0 = 0 := by
    cases isLeap year <;> rfl
  rcases monthsUp_spec (isLeap year) 12 m 0 (by decide) (by decide) hLow (by omega) with
    ⟨hMon, hDay, hInside, hDate⟩
  refine ⟨by omega, hMon, hDay, hInside, ?_⟩
  rw [hDate, hYear]
  omega

/- From the days before its end. -/
theorem dateOf_monthsDown
    {tday m year : Int}
    (hHigh : m < 0)
    (hLow : -lengthOfYear (isLeap year) ≤ m)
    (hSum : daysBeforeYear (year + 1 + 1900) + m = tday) :
    DateOf tday
      (year, (monthsDown (isLeap year) 12 m 11).2,
        (monthsDown (isLeap year) 12 m 11).1 +
          (daysInMonth (isLeap year)).getD
            (monthsDown (isLeap year) 12 m 11).2 0) := by
  have hNext := daysBeforeYear_succ (year + 1900)
  rw [Int.add_sub_cancel] at hNext
  rw [Int.add_right_comm] at hSum
  have hYear : yearOfDay tday = year + 1900 :=
    yearOfDay_unique (by omega) (by omega)
  have hLast := julianDays_last (isLeap year)
  rcases monthsDown_spec (isLeap year) 12 m 11 (by decide) (by decide) hHigh
      (by omega) with
    ⟨hMon, hDay, hInside, hDate⟩
  refine ⟨by omega, hMon, ?_, ?_, ?_⟩
  · dsimp only
    omega
  · dsimp only
    omega
  · dsimp only
    rw [hYear]
    omega

theorem dateOfDay_spec
    (tday : Int) :
    DateOf tday (dateOfDay tday) := by
  unfold dateOfDay
  generalize hm : (if cheatDays ≤ tday then tday - cheatDays
    else tday) = m
  generalize hy : (if cheatDays ≤ tday then cheatYears
    else 70) = year
  have hStart : daysBeforeYear (year + 1900) + m = tday := by
    subst hm hy
    split <;> simp [daysBeforeYear, cheatDays, cheatYears]
  have hPeriod : 0 < daysInGregorianCycle := by decide
  dsimp only
  split
  case isTrue hPos =>
    have hCycle := daysBeforeYear_add_cycles (year + 1900)
      (m.tdiv daysInGregorianCycle)
    rw [Int.add_right_comm] at hCycle
    have hLeft :
        0 ≤ m - m.tdiv daysInGregorianCycle *
          daysInGregorianCycle := by
      rw [Int.tdiv_eq_ediv_of_nonneg hPos]
      exact sub_nonneg.mpr (Int.ediv_mul_le m hPeriod.ne')
    rcases yearsUp_spec _ _ _ (Int.toNat_of_nonneg hLeft).ge hLeft with
      ⟨hLow, hHigh, hSum⟩
    exact dateOf_monthsUp hLow hHigh
      (hSum.trans (by rw [hCycle]; omega))
  case isFalse hNeg =>
    have hCycle := daysBeforeYear_add_cycles (year + 1900)
      (m.tdiv daysInGregorianCycle + 1)
    have hLess := Int.lt_tdiv_add_one_mul_self m hPeriod
    have hLeft :
        m - (m.tdiv daysInGregorianCycle + 1) *
          daysInGregorianCycle < 0 := by
      omega
    have hYear :
        year - 1 +
              (m.tdiv daysInGregorianCycle + 1) *
                yearsInGregorianCycle +
            1 + 1900 =
          year + 1900 +
            (m.tdiv daysInGregorianCycle + 1) *
              yearsInGregorianCycle := by
      omega
    rcases yearsDown_spec _ _
        (year - 1 +
          (m.tdiv daysInGregorianCycle + 1) *
            yearsInGregorianCycle)
        (Int.toNat_of_nonneg (Int.neg_nonneg_of_nonpos hLeft.le)).ge
        hLeft with
      ⟨hHigh, hLow, hSum⟩
    exact dateOf_monthsDown hHigh hLow
      (hSum.trans (by rw [hYear, hCycle]; omega))

------------------------------------------------------------
-- Broken-Down Times
------------------------------------------------------------

/- Quotient and remainder of C have the sign of the number. -/
theorem tdiv_tmod_spec
    (t : Int)
    {b : Int}
    (hPos : 0 < b) :
    t = b * t.tdiv b + t.tmod b ∧
      (0 ≤ t → 0 ≤ t.tdiv b ∧ 0 ≤ t.tmod b ∧ t.tmod b < b) ∧
      (t ≤ 0 → t.tdiv b ≤ 0 ∧ t.tmod b ≤ 0 ∧ -b < t.tmod b) := by
  refine ⟨(Int.mul_tdiv_add_tmod t b).symm, fun hNonneg => ?_,
    fun hNonpos => ?_⟩
  · exact ⟨Int.tdiv_nonneg hNonneg hPos.le,
      Int.tmod_nonneg b hNonneg, Int.tmod_lt_of_pos t hPos⟩
  · have hNeg : 0 ≤ -t := Int.neg_nonneg_of_nonpos hNonpos
    have hQuot := Int.tdiv_nonneg hNeg hPos.le
    have hRest := Int.tmod_nonneg b hNeg
    have hLess := Int.tmod_lt_of_pos (-t) hPos
    rw [Int.neg_tdiv] at hQuot
    rw [Int.neg_tmod] at hRest hLess
    omega

/- Carrying rounds down what C has rounded toward zero. -/
theorem clock_spec
    (time : Int) :
    let sec := wrapTime (time.tmod 60) ((time.tdiv 60).tmod 60) 60
    let min :=
      wrapTime sec.2 (((time.tdiv 60).tdiv 60).tmod 24) 60
    let hour :=
      wrapTime min.2 (((time.tdiv 60).tdiv 60).tdiv 24) 24
    hour.2 = time / secondsPerDay ∧
      hour.1 = time % secondsPerDay / 3600 ∧
      min.1 = time % secondsPerDay % 3600 / 60 ∧
      sec.1 = time % secondsPerDay % 60 := by
  have hSec := tdiv_tmod_spec time (by decide : (0 : Int) < 60)
  have hMin := tdiv_tmod_spec (time.tdiv 60)
    (by decide : (0 : Int) < 60)
  have hHour := tdiv_tmod_spec ((time.tdiv 60).tdiv 60)
    (by decide : (0 : Int) < 24)
  generalize ((time.tdiv 60).tdiv 60).tmod 24 = h at *
  generalize ((time.tdiv 60).tdiv 60).tdiv 24 = d at *
  generalize (time.tdiv 60).tmod 60 = m at *
  generalize (time.tdiv 60).tdiv 60 = hours at *
  generalize time.tmod 60 = s at *
  generalize time.tdiv 60 = minutes at *
  unfold wrapTime secondsPerDay
  dsimp only
  split_ifs <;> omega

theorem wday_eq
    (d : Int) :
    (if (d + 4).tmod 7 < 0 then (d + 4).tmod 7 + 7
      else (d + 4).tmod 7) =
      (d + 4) % 7 := by
  have hDay := tdiv_tmod_spec (d + 4) (by decide : (0 : Int) < 7)
  split_ifs <;> omega

theorem msGmtime64_none
    {time : Int}
    (hNone : msGmtime64 time = none) :
    wrap32 (gmtime time).tmYear ≠ (gmtime time).tmYear := by
  have hDay := (clock_spec time).1
  have hYear := (dateOfDay_spec (time / secondsPerDay)).year
  unfold msGmtime64 at hNone
  dsimp only at hNone
  rw [hDay] at hNone
  split at hNone
  case isTrue => cases hNone
  case isFalse hOut =>
    rw [hYear] at hOut
    exact hOut

theorem msGmtime64_some
    {time : Int}
    {tm : MsTm}
    (hSome : msGmtime64 time = some tm) :
    wrap32 tm.tmYear = tm.tmYear ∧
      (⟨tm.tmYear, tm.tmYday, tm.tmHour, tm.tmMin, tm.tmSec⟩ :
          Tm) = gmtime time ∧
      tm.tmMon < 12 ∧ 1 ≤ tm.tmMday ∧
      tm.tmMday ≤
        (daysInMonth (isLeap tm.tmYear)).getD tm.tmMon 0 ∧
      tm.tmYday + 1 =
        (julianDaysByMonth (isLeap tm.tmYear)).getD tm.tmMon 0 +
          tm.tmMday ∧
      tm.tmWday = (time / secondsPerDay + 4) % 7 := by
  rcases clock_spec time with ⟨hDay, hHour, hMin, hSec⟩
  have hDate := dateOfDay_spec (time / secondsPerDay)
  have hYear := hDate.year
  have hYday := hDate.yday
  have hInside := hDate.inside
  have hFirst := hDate.first
  unfold msGmtime64 at hSome
  dsimp only at hSome
  rw [hDay, wday_eq] at hSome
  split at hSome
  case isFalse => cases hSome
  case isTrue hIn =>
    obtain rfl := Option.some.inj hSome
    refine ⟨hIn, ?_, hDate.month, ?_, ?_, ?_, rfl⟩
    · simp only [hHour, hMin, hSec, hYday]
      rw [hYear]
      rfl
    · dsimp only
      omega
    · dsimp only
      omega
    · dsimp only
      omega

/-
  The time of day, and the date in the civil calendar: a
  month, a day in it and a day of the week, in the year and
  on the day that `gmtime` gives; and nothing exactly where
  that year does not fit an `int`.
-/
theorem ms_gmtime64_calendar
    (time : Int) :
    match msGmtime64 time with
    | none => wrap32 (gmtime time).tmYear ≠ (gmtime time).tmYear
    | some tm =>
        wrap32 tm.tmYear = tm.tmYear ∧
          (⟨tm.tmYear, tm.tmYday, tm.tmHour, tm.tmMin,
              tm.tmSec⟩ : Tm) = gmtime time ∧
          tm.tmMon < 12 ∧ 1 ≤ tm.tmMday ∧
          tm.tmMday ≤
            (daysInMonth (isLeap tm.tmYear)).getD tm.tmMon 0 ∧
          tm.tmYday + 1 =
            (julianDaysByMonth (isLeap tm.tmYear)).getD
                tm.tmMon 0 +
              tm.tmMday ∧
          tm.tmWday = (time / secondsPerDay + 4) % 7 := by
  cases hTm : msGmtime64 time with
  | none => exact msGmtime64_none hTm
  | some tm => exact msGmtime64_some hTm

end TankConvertor
