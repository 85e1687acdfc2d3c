import TankConvertor.Library.CString
import TankConvertor.Swap.Correctness

/-
  What the two converters read of a stored tracebuf, and the
  samples it carries.

  Key definitions include:
    * `Packet`
    * `Packet.format`
    * `SampleKind.sacword`
    * `Packet.WellFormed`
    * `Packet.words`

  Key theorems include:
    * `formatOf_letter`
    * `Packet.WellFormed.words_eq`
    * `Packet.WellFormed.length_words`
-/

------------------------------------------------------------
-- Packets
------------------------------------------------------------

namespace TankConvertor

/-
  A tracebuf in the mapped tank, as a converter reads it: the
  four numbers of the header, the bytes from the datatype on,
  and the size that the scan stored for it.
-/
structure Packet where
  nsamp : Int
  starttime : ExtRat
  endtime : ExtRat
  samprate : ExtRat
  text : Nat → UInt8
  size : Nat

/- `trh2 + 1`, counted from the datatype. -/
def headerRest : Nat := 7

/-
  The format that the branches on `datatype[0]` and on the
  number after it select.
-/
def formatOf
    (byteOrder : UInt8)
    (bytePerSample : Int) :
    Option SampleKind :=
  if byteOrder = ch 'i' ∨ byteOrder = ch 's' then
    if bytePerSample = 4 then some .i4
    else if bytePerSample = 2 then some .i2
    else none
  else if byteOrder = ch 'f' ∨ byteOrder = ch 't' then
    if bytePerSample = 4 then some .f4
    else if bytePerSample = 8 then some .f8
    else none
  else
    none

theorem formatOf_letter
    (k : SampleKind)
    (o : ByteOrder) :
    formatOf (k.letter o) k.width = some k := by
  cases k <;> cases o <;> decide

------------------------------------------------------------
-- Samples
------------------------------------------------------------

/- Reduce to the range of a signed 16-bit integer. -/
def wrap16 (x : Int) : Int :=
  (x + 2 ^ 15) % 2 ^ 16 - 2 ^ 15

/- The bits of a `SACWORD`, a single. -/
abbrev SacWord := UInt32

/- `(SACWORD)SACUNDEF`. -/
def sacUndef : SacWord :=
  Binary32.ofInt (-12345)

/- A sample of each format, converted to a `SACWORD`. -/
def SampleKind.sacword
    (host : ByteOrder)
    (k : SampleKind)
    (bs : List UInt8) :
    SacWord :=
  match k with
  | .i2 => Binary32.ofInt (wrap16 (host.value bs))
  | .i4 => Binary32.ofInt (wrap32 (host.value bs))
  | .f4 => UInt32.ofNat (host.value bs)
  | .f8 => Binary32.ofBits64 (host.value bs)

/- The conversions, one by one. -/
theorem sacword_i2
    (host : ByteOrder)
    (bs : List UInt8) :
    SampleKind.i2.sacword host bs =
      Binary32.ofInt (wrap16 (host.value bs)) := rfl

theorem sacword_i4
    (host : ByteOrder)
    (bs : List UInt8) :
    SampleKind.i4.sacword host bs =
      Binary32.ofInt (wrap32 (host.value bs)) := rfl

theorem sacword_f4
    (host : ByteOrder)
    (bs : List UInt8) :
    SampleKind.f4.sacword host bs =
      UInt32.ofNat (host.value bs) := rfl

theorem sacword_f8
    (host : ByteOrder)
    (bs : List UInt8) :
    SampleKind.f8.sacword host bs =
      Binary32.ofBits64 (host.value bs) := rfl

namespace Packet

/- `atoi(&trh2->datatype[1])`; see `bytePerSample`. -/
def bytePerSample (p : Packet) : Int :=
  atoi ((List.range 20).map (fun i => p.text (1 + i)))

/- The format of the packet's samples, if it has one. -/
def format (p : Packet) : Option SampleKind :=
  formatOf (p.text 0) p.bytePerSample

/- The `w` bytes of data at `offset`. -/
def dataAt (p : Packet) (offset w : Nat) : List UInt8 :=
  (List.range w).map (fun i => p.text (headerRest + offset + i))

/- Bytes of data that the stored size announces. -/
def dataSize (p : Packet) : Nat :=
  p.size - sizeofTrace2Header

/-
  A packet as the scan stores it: a known format, a count
  that fits a message, and the size that goes with it.
-/
structure WellFormed
    (p : Packet)
    (k : SampleKind)
    (n : Nat) : Prop where
  format : p.format = some k
  nsamp : p.nsamp = n
  few : n ≤ k.capacity
  size : p.size = sizeofTrace2Header + k.width * n

def IsWellFormed (p : Packet) : Prop :=
  ∃ k n, p.WellFormed k n

/- The samples of a packet, converted one by one. -/
def sacwords
    (host : ByteOrder)
    (k : SampleKind)
    (n : Nat)
    (p : Packet) :
    List SacWord :=
  (List.range n).map
    (fun j => k.sacword host (p.dataAt (k.width * j) k.width))

@[simp] theorem length_sacwords
    (host : ByteOrder)
    (k : SampleKind)
    (n : Nat)
    (p : Packet) :
    (p.sacwords host k n).length = n := by
  simp [sacwords]

theorem WellFormed.dataSize_eq
    {p : Packet}
    {k : SampleKind}
    {n : Nat}
    (h : p.WellFormed k n) :
    p.dataSize = k.width * n := by
  unfold dataSize
  rw [h.size, Nat.add_sub_cancel_left]

/- All samples of a packet that has a format. -/
def words
    (host : ByteOrder)
    (p : Packet) :
    List SacWord :=
  match p.format with
  | none => []
  | some k => p.sacwords host k p.nsamp.toNat

theorem WellFormed.words_eq
    {p : Packet}
    {k : SampleKind}
    {n : Nat}
    (h : p.WellFormed k n)
    (host : ByteOrder) :
    p.words host = p.sacwords host k n := by
  unfold words
  rw [h.format, h.nsamp, Int.toNat_natCast]

theorem WellFormed.length_words
    {p : Packet}
    {k : SampleKind}
    {n : Nat}
    (h : p.WellFormed k n)
    (host : ByteOrder) :
    (p.words host).length = n := by
  rw [h.words_eq, length_sacwords]

/- A message holds no more than 2016 samples. -/
theorem WellFormed.le_2016
    {p : Packet}
    {k : SampleKind}
    {n : Nat}
    (h : p.WellFormed k n) :
    n ≤ 2016 :=
  h.few.trans k.capacity_le

/- The text of a message whose data bytes are all zero. -/
def zeroText (k : SampleKind) (i : Nat) : UInt8 :=
  if i = 0 then k.letter .little
  else if i = 1 then ch '0' + UInt8.ofNat k.width
  else 0

theorem formatOf_zeroText
    (k : SampleKind) :
    formatOf (zeroText k 0)
        (atoi
          ((List.range 20).map (fun i => zeroText k (1 + i)))) =
      some k := by
  cases k <;> decide

theorem sacword_zero
    (host : ByteOrder)
    (k : SampleKind) :
    k.sacword host (List.replicate k.width 0) = 0 := by
  cases host <;> cases k <;> decide

/- One 4-byte sample at time `t`, at one sample a second. -/
def single (t : Int) : Packet where
  nsamp := 1
  starttime := ExtRat.ofInt t
  endtime := ExtRat.ofInt t
  samprate := ExtRat.ofInt 1
  text := zeroText .i4
  size := 68

theorem single_wellFormed
    (t : Int) :
    (single t).WellFormed .i4 1 where
  format := formatOf_zeroText .i4
  nsamp := rfl
  few := by decide
  size := rfl

end Packet

end TankConvertor
