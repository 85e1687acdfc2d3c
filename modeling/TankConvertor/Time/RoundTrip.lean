import TankConvertor.Time.Calendar

/-
  Times and their parts: what a record's header keeps of a
  time, and what is read back from it.

  Key definitions include:
    * `NsParts.nanoseconds`

  Key theorems include:
    * `nstime_round_trip`
    * `parts_round_trip`
    * `nstError_iff`
-/

------------------------------------------------------------
-- Parts
------------------------------------------------------------

namespace TankConvertor

/- The day that the parts name. -/
def NsParts.day (p : NsParts) : Int :=
  daysBeforeYear p.year + (p.yday - 1)

/- The instant that they name, leap second included. -/
def NsParts.nanoseconds (p : NsParts) : Int :=
  (p.day * secondsPerDay + p.hour * 3600 + p.min * 60 + p.sec) *
      nstModulus +
    p.nsec

/- The count of leap days agrees with the calendar. -/
theorem msTime2nstimeInt_eq
    {p : NsParts}
    (hYear : 1678 ≤ p.year) :
    msTime2nstimeInt p = wrap64 p.nanoseconds := by
  unfold msTime2nstimeInt NsParts.nanoseconds NsParts.day
    daysBeforeYear secondsPerDay
  dsimp only
  generalize hA4 :
    (p.year - 1900) / 4 + 475 -
      (if (p.year - 1900) % 4 = 0 then 1 else 0) = a4
  have hFloor : a4 = (p.year - 1) / 4 := by
    split_ifs at hA4 <;> omega
  have hPos : 0 ≤ a4 := by omega
  rw [Int.tdiv_eq_ediv_of_nonneg hPos,
    Int.tmod_eq_emod_of_nonneg hPos,
    if_neg (by omega : ¬ a4 % 25 < 0)]
  congr 3
  omega

/- Seconds and nanoseconds, rounded down. -/
theorem floor_nstime
    (nstime : Int) :
    let isec := nstime.tdiv nstModulus
    let ifract := nstime - isec * nstModulus
    let adjust := nstime < 0 ∧ ifract ≠ 0
    (if adjust then isec - 1 else isec) = nstime / nstModulus ∧
      (if adjust then nstModulus - -ifract else ifract) =
        nstime % nstModulus := by
  have hDiv := tdiv_tmod_spec nstime
    (by decide : (0 : Int) < nstModulus)
  generalize nstime.tdiv nstModulus = q at *
  generalize nstime.tmod nstModulus = r at *
  unfold nstModulus at *
  dsimp only
  split_ifs <;> omega

/- The first instant whose year is valid. -/
def firstNstime : Int :=
  daysBeforeYear 1678 * secondsPerDay * nstModulus

/- The year of a time of 64 bits. -/
theorem yearOfDay_range
    (day : Int)
    (hLow : -106752 ≤ day)
    (hHigh : day ≤ 106751) :
    1677 ≤ yearOfDay day ∧ yearOfDay day ≤ 2262 := by
  rcases yearOfDay_spec day with ⟨hFrom, hTo⟩
  unfold daysBeforeYear at hFrom hTo
  omega

/- What `gmtime` gives is a date of the year. -/
theorem gmtime_bounds
    (t : Int) :
    0 ≤ (gmtime t).tmYday ∧
      (gmtime t).tmYday < lengthOfYear (isLeap (gmtime t).tmYear) ∧
      (0 ≤ (gmtime t).tmHour ∧ (gmtime t).tmHour ≤ 23) ∧
      (0 ≤ (gmtime t).tmMin ∧ (gmtime t).tmMin ≤ 59) ∧
      (0 ≤ (gmtime t).tmSec ∧ (gmtime t).tmSec ≤ 59) := by
  rcases yearOfDay_spec (t / secondsPerDay) with ⟨hFrom, hTo⟩
  have hNext := daysBeforeYear_succ (yearOfDay (t / secondsPerDay))
  unfold gmtime
  dsimp only
  refine ⟨by omega, by omega, ?_, ?_, ?_⟩
  all_goals
    unfold secondsPerDay
    omega

/- Parts of a date and a time of day, no leap second. -/
structure NsParts.Plain (p : NsParts) : Prop where
  yday :
    1 ≤ p.yday ∧ p.yday ≤ lengthOfYear (isLeap (p.year - 1900))
  hour : 0 ≤ p.hour ∧ p.hour ≤ 23
  min : 0 ≤ p.min ∧ p.min ≤ 59
  sec : 0 ≤ p.sec ∧ p.sec ≤ 59
  nsec : 0 ≤ p.nsec ∧ p.nsec ≤ 999999999

theorem NsParts.Plain.year_eq
    {p : NsParts}
    (hPlain : p.Plain) :
    yearOfDay p.day = p.year := by
  have hYday := hPlain.yday
  have hNext := daysBeforeYear_succ p.year
  unfold NsParts.day
  exact yearOfDay_unique (by omega) (by omega)

/- The instant has them all. -/
theorem NsParts.Plain.ext
    {p q : NsParts}
    (hp : p.Plain)
    (hq : q.Plain)
    (hTime : p.nanoseconds = q.nanoseconds) :
    p = q := by
  have hpYear := hp.year_eq
  have hqYear := hq.year_eq
  have hDay :
      p.day = q.day ∧ p.hour = q.hour ∧ p.min = q.min ∧
        p.sec = q.sec ∧ p.nsec = q.nsec := by
    rcases hp with ⟨-, hHour, hMin, hSec, hNsec⟩
    rcases hq with ⟨-, hHour', hMin', hSec', hNsec'⟩
    unfold NsParts.nanoseconds secondsPerDay nstModulus at hTime
    omega
  have hYear : p.year = q.year := by
    rw [← hpYear, ← hqYear, hDay.1]
  have hYday : p.yday = q.yday := by
    have hSame := hDay.1
    unfold NsParts.day at hSame
    rw [hYear] at hSame
    omega
  rcases hDay with ⟨-, hHour, hMin, hSec, hNsec⟩
  exact NsParts.ext hYear hYday hHour hMin hSec hNsec

/- The days of 1678 and later are behind the first one. -/
theorem NsParts.Plain.first_le_iff
    {p : NsParts}
    (hPlain : p.Plain) :
    firstNstime ≤ p.nanoseconds ↔ 1678 ≤ p.year := by
  have hDay : daysBeforeYear 1678 ≤ p.day ↔ 1678 ≤ p.year := by
    have hYday := hPlain.yday
    have hNext := daysBeforeYear_succ p.year
    unfold NsParts.day
    constructor
    · intro hDay
      by_contra hBefore
      rcases eq_or_lt_of_le (by omega : p.year + 1 ≤ 1678) with
        hEq | hLt
      · rw [hEq] at hNext
        omega
      · have hMono := daysBeforeYear_mono hLt
        omega
    · intro hYear
      rcases eq_or_lt_of_le hYear with hEq | hLt
      · rw [← hEq]
        omega
      · have hMono := daysBeforeYear_mono hLt
        omega
  rcases hPlain with ⟨-, hHour, hMin, hSec, hNsec⟩
  rw [← hDay]
  unfold firstNstime NsParts.nanoseconds secondsPerDay nstModulus
  generalize daysBeforeYear 1678 = first
  omega

theorem firstNstime_bounds :
    -2 ^ 63 ≤ firstNstime ∧ firstNstime < nstError := by
  decide

/- The check for the day of the year. -/
theorem yday_valid_iff
    (p : NsParts) :
    p.yday ≤ 365 + (if isLeap (p.year - 1900) then 1 else 0) ↔
      p.yday ≤ lengthOfYear (isLeap (p.year - 1900)) := by
  cases isLeap (p.year - 1900) <;> exact Iff.rfl

/- The parts of a time of 64 bits. -/
theorem msNstime2time_spec
    {t : Int}
    (hLow : -2 ^ 63 ≤ t)
    (hHigh : t < 2 ^ 63) :
    ∃ p, msNstime2time t = some p ∧ p.nanoseconds = t ∧
      p.Plain ∧ 1677 ≤ p.year ∧ p.year ≤ 2262 := by
  rcases floor_nstime t with ⟨hSec, hFract⟩
  have hRange := yearOfDay_range
    (t / nstModulus / secondsPerDay)
    (by unfold nstModulus secondsPerDay; omega)
    (by unfold nstModulus secondsPerDay; omega)
  have hYear :
      (gmtime (t / nstModulus)).tmYear =
        yearOfDay (t / nstModulus / secondsPerDay) - 1900 :=
    rfl
  have hBounds := gmtime_bounds (t / nstModulus)
  have hSeconds := seconds_gmtime (t / nstModulus)
  unfold msNstime2time
  dsimp only
  rw [hSec, hFract]
  cases hTm : msGmtime64 (t / nstModulus) with
  | none =>
      have hIn : wrap32 (gmtime (t / nstModulus)).tmYear =
          (gmtime (t / nstModulus)).tmYear :=
        wrap32_of_mem (by omega) (by omega)
      exact absurd hIn (msGmtime64_none hTm)
  | some tm =>
      have hDate := msGmtime64_some hTm
      rw [← hDate.2.1] at hYear hBounds hSeconds
      dsimp only at hYear hBounds
      have hShort :
          (tm.tmYear + 1900) % 2 ^ 16 = tm.tmYear + 1900 :=
        Int.emod_eq_of_lt (by omega) (by omega)
      refine ⟨_, rfl, ?_, ⟨?_, hBounds.2.2.1, hBounds.2.2.2.1,
        hBounds.2.2.2.2, ?_⟩, ?_⟩
      · unfold NsParts.nanoseconds NsParts.day
        unfold Tm.seconds at hSeconds
        dsimp only at hSeconds ⊢
        rw [hShort, Int.add_sub_cancel, hSeconds]
        exact Int.ediv_mul_add_emod t nstModulus
      · dsimp only
        rw [hShort, Int.add_sub_cancel]
        omega
      · dsimp only
        unfold nstModulus
        omega
      · dsimp only
        omega

/- Plain parts are valid when their year is. -/
theorem NsParts.Plain.valid_iff
    {p : NsParts}
    (hPlain : p.Plain) :
    p.Valid ↔ 1678 ≤ p.year ∧ p.year ≤ 2262 := by
  rcases hPlain with ⟨hYday, hHour, hMin, hSec, hNsec⟩
  unfold NsParts.Valid
  rw [yday_valid_iff]
  omega

theorem NsParts.Valid.plain
    {p : NsParts}
    (hValid : p.Valid)
    (hSec : p.sec ≤ 59) :
    p.Plain := by
  unfold NsParts.Valid at hValid
  rw [yday_valid_iff] at hValid
  exact ⟨hValid.2.1, hValid.2.2.1, hValid.2.2.2.1,
    ⟨hValid.2.2.2.2.1.1, hSec⟩, hValid.2.2.2.2.2⟩

/- From the first valid year on the parts are valid. -/
theorem valid_of_nstime
    {t : Int}
    (hFirst : firstNstime ≤ t)
    (hHigh : t < 2 ^ 63)
    {p : NsParts}
    (hParts : msNstime2time t = some p) :
    p.Valid ∧ msTime2nstime p = t := by
  rcases msNstime2time_spec
      (firstNstime_bounds.1.trans hFirst) hHigh with
    ⟨q, hSame, hTime, hPlain, hYear⟩
  obtain rfl : p = q := Option.some.inj (hParts.symm.trans hSame)
  have hLow := hFirst
  rw [← hTime] at hFirst
  have hOk := hPlain.first_le_iff.mp hFirst
  have hValid := hPlain.valid_iff.mpr ⟨hOk, hYear.2⟩
  refine ⟨hValid, ?_⟩
  unfold msTime2nstime
  rw [if_pos hValid, msTime2nstimeInt_eq hOk, hTime]
  exact wrap64_of_mem (firstNstime_bounds.1.trans hLow) hHigh

/-
  A time of 64 bits comes back from its parts, except that
  of the last days of 1677, which nobody reads.
-/
theorem nstime_round_trip
    {t : Int}
    (hLow : -2 ^ 63 ≤ t)
    (hHigh : t < 2 ^ 63) :
    ∃ p, msNstime2time t = some p ∧
      msTime2nstime p = if firstNstime ≤ t then t else nstError := by
  rcases msNstime2time_spec hLow hHigh with
    ⟨p, hParts, hTime, hPlain, hYear⟩
  have hFirst := hPlain.first_le_iff
  rw [hTime] at hFirst
  refine ⟨p, hParts, ?_⟩
  by_cases hOk : 1678 ≤ p.year
  · rw [if_pos (hFirst.mpr hOk)]
    exact (valid_of_nstime (hFirst.mpr hOk) hHigh hParts).2
  · unfold msTime2nstime
    rw [if_neg (fun h => hOk (hPlain.valid_iff.mp h).1),
      if_neg (fun h => hOk (hFirst.mp h))]

/- The first time there is comes back as an error. -/
theorem nstime_round_trip_first :
    ∃ p, msNstime2time (-2 ^ 63) = some p ∧
      msTime2nstime p = nstError :=
  nstime_round_trip le_rfl (by decide)

/- Valid parts without a leap second, in reach of 64 bits. -/
theorem parts_round_trip
    {p : NsParts}
    (hValid : p.Valid)
    (hSec : p.sec ≤ 59)
    (hHigh : p.nanoseconds < 2 ^ 63) :
    msNstime2time (msTime2nstime p) = some p := by
  have hPlain := hValid.plain hSec
  have hLow : -2 ^ 63 ≤ p.nanoseconds :=
    firstNstime_bounds.1.trans (hPlain.first_le_iff.mpr hValid.1.1)
  have hTime : msTime2nstime p = p.nanoseconds := by
    unfold msTime2nstime
    rw [if_pos hValid, msTime2nstimeInt_eq hValid.1.1,
      wrap64_of_mem hLow hHigh]
  rw [hTime]
  rcases msNstime2time_spec hLow hHigh with
    ⟨q, hParts, hSame, hOther, -⟩
  rw [hParts, hOther.ext hPlain hSame]

theorem parts_round_trip_monday :
    msNstime2time (msTime2nstime ⟨2022, 262, 12, 30, 59, 5⟩) =
      some ⟨2022, 262, 12, 30, 59, 5⟩ :=
  parts_round_trip (by decide) (by decide) (by decide)

/- Valid parts wrap around once at most. -/
theorem NsParts.Valid.nanoseconds_bounds
    {p : NsParts}
    (hValid : p.Valid) :
    -2 ^ 63 ≤ p.nanoseconds ∧ p.nanoseconds < 2 ^ 63 + 2 ^ 61 := by
  rcases hValid with
    ⟨hYear, hYday, hHour, hMin, hSec, hNsec⟩
  have hShort : p.yday ≤ 366 := by
    have hMost := hYday.2
    split_ifs at hMost <;> omega
  unfold NsParts.nanoseconds NsParts.day daysBeforeYear
    secondsPerDay nstModulus
  omega

/-
  The value that reports an error is also a time: the first
  instant of 1902, and the leap second it follows.
-/
theorem nstError_iff
    (p : NsParts) :
    msTime2nstime p = nstError ↔
      ¬ p.Valid ∨ p = ⟨1902, 1, 0, 0, 0, 0⟩ ∨
        p = ⟨1901, 365, 23, 59, 60, 0⟩ := by
  have hNewYear :
      NsParts.nanoseconds ⟨1902, 1, 0, 0, 0, 0⟩ = nstError := by
    decide
  have hEve :
      NsParts.nanoseconds ⟨1901, 365, 23, 59, 59, 0⟩ =
        nstError - nstModulus := by
    decide
  unfold msTime2nstime
  by_cases hValid : p.Valid
  case neg => simp [hValid]
  have hWrap :
      wrap64 p.nanoseconds = nstError ↔
        p.nanoseconds = nstError := by
    have hBounds := hValid.nanoseconds_bounds
    unfold wrap64 nstError
    omega
  rw [if_pos hValid, msTime2nstimeInt_eq hValid.1.1, hWrap]
  simp only [hValid, not_true_eq_false, false_or]
  constructor
  · intro hTime
    rcases le_or_gt p.sec 59 with hSec | hSec
    · left
      exact (hValid.plain hSec).ext
        (NsParts.Valid.plain (by decide) (by decide))
        (hTime.trans hNewYear.symm)
    · -- One second before the leap second.
      right
      have hSixty : p.sec = 60 := by
        have hMost := hValid.2.2.2.2.1.2
        omega
      have hBefore : ({ p with sec := 59 } : NsParts).Valid :=
        ⟨hValid.1, hValid.2.1, hValid.2.2.1, hValid.2.2.2.1,
          (by decide : (0 : Int) ≤ 59 ∧ (59 : Int) ≤ 60),
          hValid.2.2.2.2.2⟩
      have hShift :
          ({ p with sec := 59 } : NsParts).nanoseconds =
            nstError - nstModulus := by
        rw [← hTime]
        unfold NsParts.nanoseconds NsParts.day nstModulus
        dsimp only
        omega
      have hSame := (hBefore.plain le_rfl).ext
        (NsParts.Valid.plain (by decide) (by decide))
        (hShift.trans hEve.symm)
      obtain ⟨year, yday, hour, min, sec, nsec⟩ := p
      simp only [NsParts.mk.injEq] at hSame hSixty ⊢
      omega
  · rintro (rfl | rfl)
    · exact hNewYear
    · decide

end TankConvertor
