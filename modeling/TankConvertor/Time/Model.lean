import TankConvertor.Sac.Header

/-
  The times of `libmseed`: nanoseconds since the epoch, as in
  `genutils.c`, and the calendar of `gmtime64.c`.

  Division and remainder are those of C, which round toward
  zero.  No leap seconds are loaded.

  Key definitions include:
    * `msGmtime64`
    * `msNstime2time`
    * `msTime2nstime`
    * `msSampletime`
-/

------------------------------------------------------------
-- Years And Months
------------------------------------------------------------

namespace TankConvertor

/- `IS_LEAP`, for a year counted from 1900. -/
def isLeap (n : Int) : Bool :=
  decide
    ((n + 1900) % 400 = 0 ∨
      ((n + 1900) % 4 = 0 ∧ (n + 1900) % 100 ≠ 0))

def daysInMonth : Bool → List Int
| false => [31, 28, 31, 30, 31, 30, 31, 31, 30, 31, 30, 31]
| true => [31, 29, 31, 30, 31, 30, 31, 31, 30, 31, 30, 31]

def julianDaysByMonth : Bool → List Int
| false => [0, 31, 59, 90, 120, 151, 181, 212, 243, 273, 304, 334]
| true => [0, 31, 60, 91, 121, 152, 182, 213, 244, 274, 305, 335]

def lengthOfYear : Bool → Int
| false => 365
| true => 366

def yearsInGregorianCycle : Int := 400

def daysInGregorianCycle : Int := 365 * 400 + 100 - 4 + 1

/- The first of January 2008, as days and as a year. -/
def cheatDays : Int := 1199145600 / 24 / 60 / 60

def cheatYears : Int := 108

/- `while (m >= length_of_year[leap])`. -/
def yearsUp : Nat → Int → Int → Int × Int
| 0, m, year => (m, year)
| fuel + 1, m, year =>
    if lengthOfYear (isLeap year) ≤ m then
      yearsUp fuel (m - lengthOfYear (isLeap year)) (year + 1)
    else
      (m, year)

/- `while (m < -length_of_year[leap])`. -/
def yearsDown : Nat → Int → Int → Int × Int
| 0, m, year => (m, year)
| fuel + 1, m, year =>
    if m < -lengthOfYear (isLeap year) then
      yearsDown fuel (m + lengthOfYear (isLeap year)) (year - 1)
    else
      (m, year)

/- `while (m >= days_in_month[leap][v_tm_mon])`. -/
def monthsUp (leap : Bool) : Nat → Int → Nat → Int × Nat
| 0, m, mon => (m, mon)
| fuel + 1, m, mon =>
    if (daysInMonth leap).getD mon 0 ≤ m then
      monthsUp leap fuel (m - (daysInMonth leap).getD mon 0)
        (mon + 1)
    else
      (m, mon)

/- `while (m < -days_in_month[leap][v_tm_mon])`. -/
def monthsDown (leap : Bool) : Nat → Int → Nat → Int × Nat
| 0, m, mon => (m, mon)
| fuel + 1, m, mon =>
    if m < -(daysInMonth leap).getD mon 0 then
      monthsDown leap fuel (m + (daysInMonth leap).getD mon 0)
        (mon - 1)
    else
      (m, mon)

------------------------------------------------------------
-- Broken-Down Times
------------------------------------------------------------

/- The fields of a `struct tm` that are set. -/
structure MsTm where
  tmSec : Int
  tmMin : Int
  tmHour : Int
  tmMday : Int
  tmMon : Nat
  tmYear : Int
  tmWday : Int
  tmYday : Int
deriving DecidableEq, Repr

/- `WRAP_TIME64`. -/
def wrapTime (a b m : Int) : Int × Int :=
  if a < 0 then (a + m, b - 1) else (a, b)

/- Year, month, day in the month, from the day. -/
def dateOfDay (tday : Int) : Int × Nat × Int :=
  let m := if cheatDays ≤ tday then tday - cheatDays else tday
  let year := if cheatDays ≤ tday then cheatYears else 70
  if 0 ≤ m then
    let cycles := m.tdiv daysInGregorianCycle
    let m := m - cycles * daysInGregorianCycle
    let year := year + cycles * yearsInGregorianCycle
    let y := yearsUp m.toNat m year
    let d := monthsUp (isLeap y.2) 12 y.1 0
    (y.2, d.2, d.1)
  else
    let year := year - 1
    let cycles := m.tdiv daysInGregorianCycle + 1
    let m := m - cycles * daysInGregorianCycle
    let year := year + cycles * yearsInGregorianCycle
    let y := yearsDown (-m).toNat m year
    let leap := isLeap y.2
    let d := monthsDown leap 12 y.1 11
    (y.2, d.2, d.1 + (daysInMonth leap).getD d.2 0)

/- `ms_gmtime64_r`; nothing when the year is no `int`. -/
def msGmtime64 (time : Int) : Option MsTm :=
  let sec := wrapTime (time.tmod 60) ((time.tdiv 60).tmod 60) 60
  let min :=
    wrapTime sec.2 (((time.tdiv 60).tdiv 60).tmod 24) 60
  let hour :=
    wrapTime min.2 (((time.tdiv 60).tdiv 60).tdiv 24) 24
  let tday := hour.2
  let wday := (tday + 4).tmod 7
  let wday := if wday < 0 then wday + 7 else wday
  let date := dateOfDay tday
  if wrap32 date.1 = date.1 then
    some
      { tmSec := sec.1
        tmMin := min.1
        tmHour := hour.1
        tmMday := date.2.2 + 1
        tmMon := date.2.1
        tmYear := date.1
        tmWday := wday
        tmYday :=
          (julianDaysByMonth (isLeap date.1)).getD date.2.1 0 +
            date.2.2 }
  else
    none

------------------------------------------------------------
-- Nanoseconds
------------------------------------------------------------

/- `NSTMODULUS`. -/
def nstModulus : Int := 1000000000

/- `NSTERROR`. -/
def nstError : Int := -2145916800000000000

/- The parts of a time in a record. -/
@[ext] structure NsParts where
  year : Int
  yday : Int
  hour : Int
  min : Int
  sec : Int
  nsec : Int
deriving DecidableEq, Repr

/-
  `ms_nstime2time`; the year goes to 16 bits, the other
  parts fit where they are stored.
-/
def msNstime2time (nstime : Int) : Option NsParts :=
  let isec := nstime.tdiv nstModulus
  let ifract := nstime - isec * nstModulus
  let adjust := nstime < 0 ∧ ifract ≠ 0
  let isec := if adjust then isec - 1 else isec
  let ifract := if adjust then nstModulus - -ifract else ifract
  match msGmtime64 isec with
  | none => none
  | some tm =>
      some
        { year := (tm.tmYear + 1900) % 2 ^ 16
          yday := tm.tmYday + 1
          hour := tm.tmHour
          min := tm.tmMin
          sec := tm.tmSec
          nsec := ifract }

/- `VALIDYEAR` and the checks behind it. -/
def NsParts.Valid (p : NsParts) : Prop :=
  (1678 ≤ p.year ∧ p.year ≤ 2262) ∧
    (1 ≤ p.yday ∧
      p.yday ≤ 365 + (if isLeap (p.year - 1900) then 1 else 0)) ∧
    (0 ≤ p.hour ∧ p.hour ≤ 23) ∧ (0 ≤ p.min ∧ p.min ≤ 59) ∧
    (0 ≤ p.sec ∧ p.sec ≤ 60) ∧
    (0 ≤ p.nsec ∧ p.nsec ≤ 999999999)

instance (p : NsParts) : Decidable p.Valid := by
  unfold NsParts.Valid
  infer_instance

/-
  `>>` shifts a signed number as division by a power does.
  The days of 2262 that 64 bits do not reach wrap around.
-/
def msTime2nstimeInt (p : NsParts) : Int :=
  let shortyear := p.year - 1900
  let a4 := shortyear / 4 + 475 - (if shortyear % 4 = 0 then 1 else 0)
  let a100 :=
    a4.tdiv 25 - (if a4.tmod 25 < 0 then 1 else 0)
  let a400 := a100 / 4
  let interveningLeapDays := (a4 - 492) - (a100 - 19) + (a400 - 4)
  let days :=
    365 * (shortyear - 70) + interveningLeapDays + (p.yday - 1)
  wrap64
    ((60 * (60 * (24 * days + p.hour) + p.min) + p.sec) *
        nstModulus +
      p.nsec)

/- `ms_time2nstime`. -/
def msTime2nstime (p : NsParts) : Int :=
  if p.Valid then msTime2nstimeInt p else nstError

/-
  `ms_sampletime`, in doubles and in the 64 bits of
  `nstime_t`; a negative rate is a period.
-/
def msSampletime
    (time offset : Int)
    (samprate : ExtRat) :
    Int :=
  let double := binary64.round
  let half := ExtRat.fin (1 / 2)
  let modulus := ExtRat.ofInt nstModulus
  let count := double (ExtRat.ofInt offset)
  let span :=
    if 0 < offset then
      if ExtRat.ofInt 0 < samprate then
        (double
          (double (double (count / samprate) * modulus) +
            half)).truncTo (2 ^ 63)
      else if samprate < ExtRat.ofInt 0 then
        (double
          (double (double (count * -samprate) * modulus) +
            half)).truncTo (2 ^ 63)
      else
        0
    else
      0
  wrap64 (time + span)

end TankConvertor
