import TankConvertor.Crc.Table
import TankConvertor.Library.Memory

/-
  `crc32c.c`: the check of a record, one byte at a time or
  eight, with the address of the input as an integer.

  Key definitions include:
    * `sCrcGenericSb1`, `sCrcGenericSb4`, `sCrcGenericSb8`
    * `sCrcGenericAlign`
    * `msCrc32c`
-/

------------------------------------------------------------
-- Slices
------------------------------------------------------------

namespace TankConvertor

/- `(*table)[k][i]`. -/
def crcEntry (k : Nat) (i : BitVec 32) : BitVec 32 :=
  BitVec.ofNat 32 ((crc32cTable.getD k []).getD i.toNat 0)

/- `while (length-- > 0)`. -/
def sCrcGenericSb1
    (m : ByteMem) :
    Nat → Int → BitVec 32 → BitVec 32
| 0, _, crc => crc
| length + 1, input, crc =>
    sCrcGenericSb1 m length (input + 1)
      ((crc >>> 8) ^^^
        crcEntry 0
          ((crc &&& 0xff#32) ^^^
            BitVec.ofNat 32 (m input).toNat))

/- `*current`, a word in the order of the host. -/
def loadWord32
    (host : ByteOrder)
    (m : ByteMem)
    (current : Int) :
    BitVec 32 :=
  BitVec.ofNat 32 (host.value (m.read current 4))

def sCrcGenericSb4
    (host : ByteOrder)
    (m : ByteMem) :
    Nat → Int → BitVec 32 → BitVec 32
| remaining + 4, current, crc =>
    let crc := crc ^^^ loadWord32 host m current
    sCrcGenericSb4 host m remaining (current + 4)
      (crcEntry 3 (crc &&& 0xff#32) ^^^
        crcEntry 2 ((crc >>> 8) &&& 0xff#32) ^^^
        crcEntry 1 ((crc >>> 16) &&& 0xff#32) ^^^
        crcEntry 0 (crc >>> 24))
| remaining, current, crc =>
    sCrcGenericSb1 m remaining current crc

def sCrcGenericSb8
    (host : ByteOrder)
    (m : ByteMem) :
    Nat → Int → BitVec 32 → BitVec 32
| remaining + 8, current, crc =>
    let c1 := loadWord32 host m current ^^^ crc
    let c2 := loadWord32 host m (current + 4)
    let t1 :=
      crcEntry 7 (c1 &&& 0xff#32) ^^^
        crcEntry 6 ((c1 >>> 8) &&& 0xff#32) ^^^
        crcEntry 5 ((c1 >>> 16) &&& 0xff#32) ^^^
        crcEntry 4 ((c1 >>> 24) &&& 0xff#32)
    let t2 :=
      crcEntry 3 (c2 &&& 0xff#32) ^^^
        crcEntry 2 ((c2 >>> 8) &&& 0xff#32) ^^^
        crcEntry 1 ((c2 >>> 16) &&& 0xff#32) ^^^
        crcEntry 0 ((c2 >>> 24) &&& 0xff#32)
    sCrcGenericSb8 host m remaining (current + 8) (t1 ^^^ t2)
| remaining, current, crc =>
    sCrcGenericSb4 host m remaining current crc

------------------------------------------------------------
-- Alignment
------------------------------------------------------------

/- Bytes in front of the first aligned word. -/
def leadingBytes (input : Int) : Int :=
  (4 - input % 4) % 4

/-
  What is left without the leading bytes is a `size_t`: it
  is never negative.
-/
def sCrcGenericAlign
    (m : ByteMem)
    (input length : Int)
    (crc : BitVec 32) :
    Int × Int × BitVec 32 :=
  let leading := leadingBytes input
  let remaining := (length - leading) % 2 ^ 64
  if leading ≠ 0 ∧ 0 < remaining then
    (input + leading, length - leading,
      sCrcGenericSb1 m leading.toNat input crc)
  else
    (input, length, crc)

def sCrc32cNoSlice
    (m : ByteMem)
    (input length : Int)
    (previous : BitVec 32) :
    BitVec 32 :=
  ~~~sCrcGenericSb1 m length.toNat input (~~~previous)

def sCrc32cSb8
    (host : ByteOrder)
    (m : ByteMem)
    (input length : Int)
    (previous : BitVec 32) :
    BitVec 32 :=
  match sCrcGenericAlign m input length (~~~previous) with
  | (input, length, crc) =>
      ~~~sCrcGenericSb8 host m length.toNat input crc

/- `ms_crc32c`, of an input that is there. -/
def msCrc32c
    (host : ByteOrder)
    (m : ByteMem)
    (input length : Int)
    (previous : BitVec 32) :
    BitVec 32 :=
  match host with
  | .big => sCrc32cNoSlice m input length previous
  | .little => sCrc32cSb8 host m input length previous

end TankConvertor
