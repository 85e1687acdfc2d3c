import TankConvertor.Library.Memory
import TankConvertor.Library.Rounding

/-
  The tracebuf header of `trace_buf.h` and the routines of
  `swap.c` that bring a message into the host's byte order.

  Times and rates are IEEE doubles, and every result is
  rounded to one; `int` arithmetic is on 32 bits.

  Key definitions include:
    * `Trace2Header.nsamp` and its sibling fields
    * `EndtimeOff` and `Inconsistent`
    * `makelocalWavemsgVer`
    * `swapWavemsgMakelocal` and `swapWavemsg2Makelocal`
-/

------------------------------------------------------------
-- The Tracebuf Header
------------------------------------------------------------

namespace TankConvertor

/- The byte of an ASCII character. -/
def ch (c : Char) : UInt8 :=
  UInt8.ofNat c.toNat

/- Largest size of a tracebuf message. -/
def maxTracebufSiz : Nat := 4096

/- `sizeof(TRACE2_HEADER)`, and of the other two headers. -/
def sizeofTrace2Header : Nat := 64

/-
  Fields of the header at address `p`.  The five numbers
  are read in a given byte order; the codes, the version
  and the datatype are characters.
-/
namespace Trace2Header

def pinno (o : ByteOrder) (m : ByteMem) (p : Int) : Int :=
  wrap32 (o.value (m.read p 4))

def nsamp (o : ByteOrder) (m : ByteMem) (p : Int) : Int :=
  wrap32 (o.value (m.read (p + 4) 4))

def starttime
    (o : ByteOrder)
    (m : ByteMem)
    (p : Int) :
    ExtRat :=
  .ofBits64 (o.value (m.read (p + 8) 8))

def endtime
    (o : ByteOrder)
    (m : ByteMem)
    (p : Int) :
    ExtRat :=
  .ofBits64 (o.value (m.read (p + 16) 8))

def samprate
    (o : ByteOrder)
    (m : ByteMem)
    (p : Int) :
    ExtRat :=
  .ofBits64 (o.value (m.read (p + 24) 8))

def sta (m : ByteMem) (p : Int) : List UInt8 :=
  m.read (p + 32) 7

def net (m : ByteMem) (p : Int) : List UInt8 :=
  m.read (p + 39) 9

def chan (m : ByteMem) (p : Int) : List UInt8 :=
  m.read (p + 48) 4

def loc (m : ByteMem) (p : Int) : List UInt8 :=
  m.read (p + 52) 3

/- `version[0]` and `version[1]`. -/
def version0 (m : ByteMem) (p : Int) : UInt8 := m (p + 55)
def version1 (m : ByteMem) (p : Int) : UInt8 := m (p + 56)

/- `datatype[0]` and `datatype[1]`. -/
def datatype0 (m : ByteMem) (p : Int) : UInt8 := m (p + 57)
def datatype1 (m : ByteMem) (p : Int) : UInt8 := m (p + 58)

/- Address of the first sample. -/
def samples (p : Int) : Int := p + 64

end Trace2Header

------------------------------------------------------------
-- Local Byte Order
------------------------------------------------------------

open Trace2Header

/- Datatype letters of the host's own byte order. -/
def locIbyteOrder : ByteOrder → UInt8
| .big => ch 's'
| .little => ch 'i'

def locFbyteOrder : ByteOrder → UInt8
| .big => ch 't'
| .little => ch 'f'

/- Datatype letters of the opposite byte order. -/
def opsIbyteOrder : ByteOrder → UInt8
| .big => ch 'i'
| .little => ch 's'

def opsFbyteOrder : ByteOrder → UInt8
| .big => ch 'f'
| .little => ch 't'

/- The letter of a data sort the routine knows. -/
def sortOfData (d₀ d₁ : UInt8) : Option UInt8 :=
  if d₀ = ch 's' ∧ (d₁ = ch '2' ∨ d₁ = ch '4') then
    some (ch 's')
  else if d₀ = ch 'i' ∧ (d₁ = ch '2' ∨ d₁ = ch '4') then
    some (ch 'i')
  else if d₀ = ch 't' ∧ (d₁ = ch '4' ∨ d₁ = ch '8') then
    some (ch 't')
  else if d₀ = ch 'f' ∧ (d₁ = ch '4' ∨ d₁ = ch '8') then
    some (ch 'f')
  else
    none

/- `tracedata_max_size`. -/
def tracedataMaxSize : Nat :=
  maxTracebufSiz - sizeofTrace2Header

/-
  Swap the numbers of the header; the conversion factor is
  one of them in a version 21 message only.
-/
def swapHeader
    (m : ByteMem)
    (p : Int)
    (version : UInt8) :
    ByteMem :=
  let m := m.swapAt p 4
  let m := m.swapAt (p + 4) 4
  let m := m.swapAt (p + 8) 8
  let m := m.swapAt (p + 16) 8
  let m := m.swapAt (p + 24) 8
  if version = ch '2' then
    if version1 m p = ch '1' then m.swapAt (p + 60) 4 else m
  else
    m

/-
  The end time is not within five sample intervals of the
  one computed from the start time, the rate and the count.
-/
def EndtimeOff
    [Rounding]
    (nsamp : Int)
    (starttime endtime samprate : ExtRat) : Prop :=
  let last := ExtRat.ofInt (wrap32 (nsamp - 1))
  let computed :=
    Rounding.double
      (starttime + Rounding.double (last / samprate))
  let fudge := Rounding.double (ExtRat.ofInt 5 / samprate)
  endtime < Rounding.double (computed - fudge) ∨
    Rounding.double (computed + fudge) < endtime

instance [Rounding]
    (nsamp : Int)
    (starttime endtime samprate : ExtRat) :
    Decidable
      (EndtimeOff nsamp starttime endtime samprate) := by
  unfold EndtimeOff
  infer_instance

/- The check of the end time fails for the header. -/
def Inconsistent
    [Rounding]
    (o : ByteOrder)
    (m : ByteMem)
    (p : Int) : Prop :=
  EndtimeOff (nsamp o m p) (starttime o m p) (endtime o m p)
    (samprate o m p)

instance [Rounding] (o : ByteOrder) (m : ByteMem) (p : Int) :
    Decidable (Inconsistent o m p) := by
  unfold Inconsistent
  infer_instance

/-
  Swap `nsamp` samples of `size` bytes and name the host's
  order in the datatype.
-/
def swapData
    (m : ByteMem)
    (p : Int)
    (size : Nat)
    (count : Int)
    (letter : UInt8) :
    ByteMem :=
  let m := m.swapWords (samples p) size count.toNat
  let m := m.set (p + 57) letter
  m.set (p + 58) (ch '0' + UInt8.ofNat size)

/-
  Bring the message at `p` into the order of `host`, in
  place: -1 for an unknown data sort or too many samples, -2
  for an inconsistent header, else 0.
-/
def makelocalWavemsgVer
    [Rounding]
    (host : ByteOrder)
    (m : ByteMem)
    (p : Int)
    (version : UInt8) :
    Int × ByteMem :=
  match sortOfData (datatype0 m p) (datatype1 m p) with
  | none => (-1, m)
  | some byteOrder =>
      let dataSize := (datatype1 m p - ch '0').toNat
      let m :=
        if byteOrder ≠ locIbyteOrder host ∧
            byteOrder ≠ locFbyteOrder host then
          swapHeader m p version
        else
          m
      if (tracedataMaxSize / dataSize : Nat) < nsamp host m p then
        (-1, m)
      else if Inconsistent host m p then
        (-2, m)
      else if byteOrder = opsIbyteOrder host then
        (0,
          swapData m p dataSize (nsamp host m p)
            (locIbyteOrder host))
      else if byteOrder = opsFbyteOrder host then
        (0,
          swapData m p dataSize (nsamp host m p)
            (locFbyteOrder host))
      else
        (0, m)

/- A message without location codes counts as version 1. -/
def swapWavemsgMakelocal
    [Rounding]
    (host : ByteOrder)
    (m : ByteMem)
    (p : Int) :
    Int × ByteMem :=
  makelocalWavemsgVer host m p (ch '1')

/- The version byte is taken from the message itself. -/
def swapWavemsg2Makelocal
    [Rounding]
    (host : ByteOrder)
    (m : ByteMem)
    (p : Int) :
    Int × ByteMem :=
  makelocalWavemsgVer host m p (version0 m p)

end TankConvertor
