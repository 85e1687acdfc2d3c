import TankConvertor.Scan.Model
import TankConvertor.Convert.Packet

/-
  The SAC header of `sachead.h` and the routines of
  `sacproc.c` that fill it.

  The header is kept in the form of `SAChead2`, as arrays of
  floats, integers and characters.  `gmtime` converts any
  count of seconds to a date of the proleptic calendar; that
  of the C library gives NULL where the year is no `int`, and
  `GmtimeFits` names the times for which it does not.

  Key definitions include:
    * `SacHeader`
    * `initHeader` and `enrichHeaderDefault`
    * `enrichCodes` and `enrichOrientation`
    * `gmtime`, `GmtimeFits` and `enrichSacStarttime`
    * `sacHeaderOf`

  Key theorems include:
    * `sacHeaderOf_congr`
    * `gmtimeFits_of_small`
-/

------------------------------------------------------------
-- The Header And Its Fields
------------------------------------------------------------

namespace TankConvertor

abbrev numFloat : Nat := 70
abbrev maxInt : Nat := 40
abbrev maxString : Nat := 24
abbrev kLen : Nat := 8

/- `struct SAChead2`. -/
structure SacHeader where
  float : Fin numFloat → ExtRat
  int : Fin maxInt → Int
  string : Fin (maxString * kLen) → UInt8

/- `sizeof(struct SAChead)`. -/
def sacHeaderSize : Nat :=
  numFloat * 4 + maxInt * 4 + maxString * kLen

example : sacHeaderSize = 632 := by decide

namespace SacHeader

def setFloat
    (h : SacHeader)
    (i : Fin numFloat)
    (x : ExtRat) :
    SacHeader :=
  { h with float := fun j => if j = i then x else h.float j }

def setInt
    (h : SacHeader)
    (i : Fin maxInt)
    (x : Int) :
    SacHeader :=
  { h with int := fun j => if j = i then x else h.int j }

/- Copy bytes into the characters from `start` on. -/
def copyTo
    (h : SacHeader)
    (start : Nat)
    (bs : List UInt8) :
    SacHeader :=
  { h with
    string := fun j =>
      if start ≤ j.val ∧ j.val < start + bs.length then
        bs.getD (j.val - start) 0
      else
        h.string j }

end SacHeader

/- Positions of the fields that the program names. -/
namespace SacField

def delta : Fin numFloat := 0
def b : Fin numFloat := 5
def e : Fin numFloat := 6
def cmpaz : Fin numFloat := 57
def cmpinc : Fin numFloat := 58
def nzyear : Fin maxInt := 0
def nzjday : Fin maxInt := 1
def nzhour : Fin maxInt := 2
def nzmin : Fin maxInt := 3
def nzsec : Fin maxInt := 4
def nzmsec : Fin maxInt := 5
def npts : Fin maxInt := 9
def iftype : Fin maxInt := 15
def idep : Fin maxInt := 16
def iztype : Fin maxInt := 17
def leven : Fin maxInt := 35
def kstnm : Nat := 0
def khole : Nat := 24
def ko : Nat := 32
def kcmpnm : Nat := 160
def knetwk : Nat := 168

end SacField

------------------------------------------------------------
-- Initial And Default Values
------------------------------------------------------------

/- `SACUNDEF`, `SAC_I_D` and the integer constants. -/
def sacUndefined : Int := -12345
def sacID : Int := 2
def sacVersion : Int := 6
def sacIunkn : Int := 5
def sacIbegintime : Int := 9
def sacItime : Int := 1

/- `SACSTRUNDEF`. -/
def sacStrUndef : List UInt8 :=
  ['-', '1', '2', '3', '4', '5', ' ', ' '].map ch

/- The last five integers are the logical ones. -/
def initHeader : SacHeader where
  float := fun i =>
    ExtRat.ofInt (if i.val = 9 then sacID else sacUndefined)
  int := fun i =>
    if i.val = 6 then sacVersion
    else if i.val < maxInt - 5 then sacUndefined
    else 1
  string := fun i => sacStrUndef.getD (i.val % kLen) 0

def enrichHeaderDefault (h : SacHeader) : SacHeader :=
  let h := h.setInt SacField.idep sacIunkn
  let h := h.setInt SacField.iztype sacIbegintime
  let h := h.setInt SacField.iftype sacItime
  let h := h.setInt SacField.leven 1
  let h := h.setFloat SacField.b (ExtRat.ofInt 0)
  h.copyTo SacField.ko
    (['o', 'r', 'i', 'g', 'i', 'n', ' '].map ch ++ [0])

------------------------------------------------------------
-- Codes And Orientation
------------------------------------------------------------

/-
  `strcpy`, terminator included, then blanks from the end of
  the code to the end of the field.
-/
def enrichCode
    (h : SacHeader)
    (field : Nat)
    (code : List UInt8) :
    SacHeader :=
  let h := h.copyTo field (cstr code ++ [0])
  let length := (cstr code).length
  h.copyTo (field + length)
    (List.replicate (kLen - length) (ch ' '))

def enrichCodes (h : SacHeader) (n : TraceNode) : SacHeader :=
  let h := enrichCode h SacField.kstnm n.fromSta
  let h := enrichCode h SacField.kcmpnm n.fromChan
  let h := enrichCode h SacField.knetwk n.fromNet
  enrichCode h SacField.khole n.fromLoc

/- Azimuth and inclination that a component's letter names. -/
def orientation (c : UInt8) : Int × Int :=
  if c = ch 'Z' ∨ c = ch 'z' then (0, 0)
  else if c = ch 'N' ∨ c = ch 'n' then (0, 90)
  else if c = ch 'E' ∨ c = ch 'e' then (90, 90)
  else (sacUndefined, sacUndefined)

/- `tnode->chan[2]`, whatever stands before it. -/
def TraceNode.component (n : TraceNode) : UInt8 :=
  n.chan.getD 2 0

def enrichOrientation
    (h : SacHeader)
    (n : TraceNode) :
    SacHeader :=
  let o := orientation n.component
  let h := h.setFloat SacField.cmpaz (ExtRat.ofInt o.1)
  h.setFloat SacField.cmpinc (ExtRat.ofInt o.2)

/- The header as it is before the loop over the packets. -/
def sacHeaderOf (n : TraceNode) : SacHeader :=
  let h := enrichHeaderDefault initHeader
  enrichOrientation (enrichCodes h n) n

/-
  The header depends on the codes as strings, and on the
  orientation that the third byte of the channel names.
-/
theorem sacHeaderOf_congr
    {a b : TraceNode}
    (hSta : cstr a.fromSta = cstr b.fromSta)
    (hChan : cstr a.fromChan = cstr b.fromChan)
    (hNet : cstr a.fromNet = cstr b.fromNet)
    (hLoc : cstr a.fromLoc = cstr b.fromLoc)
    (hOrientation :
      orientation a.component = orientation b.component) :
    sacHeaderOf a = sacHeaderOf b := by
  simp only [sacHeaderOf, enrichOrientation, enrichCodes,
    enrichCode, hSta, hChan, hNet, hLoc, hOrientation]

/- The orientation can be read back from the header. -/
theorem orientation_of_sacHeaderOf
    (n : TraceNode) :
    orientation n.component =
      ((sacHeaderOf n).float SacField.cmpaz |>.toRat.num,
        (sacHeaderOf n).float SacField.cmpinc |>.toRat.num) := by
  have hAz :
      (sacHeaderOf n).float SacField.cmpaz =
        ExtRat.ofInt (orientation n.component).1 := by
    simp [sacHeaderOf, enrichOrientation, SacHeader.setFloat,
      SacField.cmpaz, SacField.cmpinc]
  have hInc :
      (sacHeaderOf n).float SacField.cmpinc =
        ExtRat.ofInt (orientation n.component).2 := by
    simp [sacHeaderOf, enrichOrientation, SacHeader.setFloat]
  rw [hAz, hInc]
  simp

------------------------------------------------------------
-- Reference Time
------------------------------------------------------------

/- The fields of a `struct tm` that are read. -/
structure Tm where
  tmYear : Int
  tmYday : Int
  tmHour : Int
  tmMin : Int
  tmSec : Int
deriving DecidableEq, Repr

def secondsPerDay : Int := 86400

/- Days from the epoch to the first of January of `year`. -/
def daysBeforeYear (year : Int) : Int :=
  365 * (year - 1970) + ((year - 1) / 4 - 1969 / 4) -
    ((year - 1) / 100 - 1969 / 100) +
    ((year - 1) / 400 - 1969 / 400)

/-
  The year a day lies in: 400 years have 146097 days, which
  gives a year that is at most one off.
-/
def yearOfDay (day : Int) : Int :=
  let guess := 1970 + day * 400 / 146097
  if day < daysBeforeYear guess then guess - 1
  else if daysBeforeYear (guess + 1) ≤ day then guess + 1
  else guess

theorem yearOfDay_spec
    (day : Int) :
    daysBeforeYear (yearOfDay day) ≤ day ∧
      day < daysBeforeYear (yearOfDay day + 1) := by
  simp only [yearOfDay]
  split_ifs with hBefore hAfter
  · refine ⟨?_, by simpa using hBefore⟩
    unfold daysBeforeYear
    omega
  · refine ⟨hAfter, ?_⟩
    unfold daysBeforeYear
    omega
  · exact ⟨not_lt.mp hBefore, not_le.mp hAfter⟩

/- `gmtime`: days have 86400 seconds, years the civil length. -/
def gmtime (t : Int) : Tm :=
  let day := t / secondsPerDay
  let second := t % secondsPerDay
  let year := yearOfDay day
  { tmYear := year - 1900
    tmYday := day - daysBeforeYear year
    tmHour := second / 3600
    tmMin := second % 3600 / 60
    tmSec := second % 60 }

example :
    gmtime 1663200000 = ⟨122, 257, 0, 0, 0⟩ := by decide

/- `tm_year` holds the year. -/
def GmtimeFits (t : Int) : Prop :=
  wrap32 (gmtime t).tmYear = (gmtime t).tmYear

/- More than a thousand million years to either side. -/
theorem gmtimeFits_of_small
    {t : Int}
    (hLow : -2 ^ 55 ≤ t)
    (hHigh : t < 2 ^ 55) :
    GmtimeFits t := by
  have hYear :
      -2 ^ 31 ≤ yearOfDay (t / secondsPerDay) - 1900 ∧
        yearOfDay (t / secondsPerDay) - 1900 < 2 ^ 31 := by
    simp only [yearOfDay, secondsPerDay]
    constructor <;> split_ifs <;> omega
  exact wrap32_of_mem hYear.1 hYear.2

/- `time_t` has 64 bits. -/
def enrichSacStarttime
    [Rounding]
    (h : SacHeader)
    (starttime : ExtRat) :
    SacHeader :=
  let ltm := gmtime (starttime.truncTo (2 ^ 63))
  let h := h.setInt SacField.nzyear (wrap32 (ltm.tmYear + 1900))
  let h := h.setInt SacField.nzjday (ltm.tmYday + 1)
  let h := h.setInt SacField.nzhour ltm.tmHour
  let h := h.setInt SacField.nzmin ltm.tmMin
  let h := h.setInt SacField.nzsec ltm.tmSec
  let second := ExtRat.ofInt (starttime.truncTo (2 ^ 31))
  let fraction := Rounding.double (starttime - second)
  h.setInt SacField.nzmsec
    ((Rounding.double (fraction * ExtRat.ofInt 1000)).truncTo
      (2 ^ 31))

end TankConvertor
