import TankConvertor.Mseed.Agreement
import TankConvertor.Steim.Model
import TankConvertor.Time.Model
import TankConvertor.Crc.Model

/-
  Records of miniSEED version 3, as `pack.c` writes them.

  Samples are 32-bit integers, floats or doubles, the last
  two as their bits; a rate is the bits of a double, and
  `period` stands for the machine's division of -1 by one.
  Of the encodings there are those that keep such samples.

  Key definitions include:
    * `Ms3Header`
    * `msrPackData`
    * `msr3PackHeader3`
    * `msr3PackMseed3`
-/

------------------------------------------------------------
-- Fields
------------------------------------------------------------

namespace TankConvertor

open BitFields

/- An integer of `w` bytes, swapped when `swapflag` is set. -/
def storeField
    (host : ByteOrder)
    (swapflag : Bool)
    (w v : Nat) :
    List UInt8 :=
  if swapflag then (host.bytes w v).reverse else host.bytes w v

def loadField
    (host : ByteOrder)
    (swapflag : Bool)
    (bs : List UInt8) :
    Nat :=
  host.value (if swapflag then bs.reverse else bs)

/- `HO2u`. -/
def ho2u (v : Nat) (swapflag : Bool) : Nat :=
  if swapflag then v % 256 * 256 + v / 256 % 256 else v % 2 ^ 16

/- Version 3 is little-endian. -/
def swap3 (host : ByteOrder) : Bool :=
  decide (host = .big)

/- The fixed header, and what follows it. -/
structure Ms3Header where
  flags : Nat
  time : NsParts
  encoding : Nat
  samplerate : Nat
  numsamples : List UInt8
  crc : Nat
  pubversion : Nat
  datalength : List UInt8
  sid : List UInt8
  extra : List UInt8
deriving DecidableEq, Repr

/- `MS3FSDH_LENGTH`. -/
def ms3fsdhLength : Nat := 40

/- The fields from first to last. -/
def Ms3Header.fields
    (host : ByteOrder)
    (h : Ms3Header) :
    List (List UInt8) :=
  [ ['M', 'S'].map ch,
    [3],
    [UInt8.ofNat h.flags],
    storeField host (swap3 host) 4 h.time.nsec.toNat,
    storeField host (swap3 host) 2 h.time.year.toNat,
    storeField host (swap3 host) 2 h.time.yday.toNat,
    [UInt8.ofNat h.time.hour.toNat],
    [UInt8.ofNat h.time.min.toNat],
    [UInt8.ofNat h.time.sec.toNat],
    [UInt8.ofNat h.encoding],
    storeField host (swap3 host) 8 h.samplerate,
    h.numsamples,
    storeField host (swap3 host) 4 h.crc,
    [UInt8.ofNat h.pubversion],
    [UInt8.ofNat h.sid.length],
    storeField host (swap3 host) 2 h.extra.length,
    h.datalength,
    h.sid,
    h.extra ]

------------------------------------------------------------
-- Payloads
------------------------------------------------------------

/- `DE_INT32` and the others. -/
inductive Encoding where
| int32
| float32
| float64
| steim2
deriving DecidableEq, Repr

def Encoding.code : Encoding → Nat
| .int32 => 3
| .float32 => 4
| .float64 => 5
| .steim2 => 11

namespace MsSamples

def drop (n : Nat) : MsSamples → MsSamples
| .int32s xs => .int32s (xs.drop n)
| .floats xs => .floats (xs.drop n)
| .doubles xs => .doubles (xs.drop n)

/- `ms_samplesize` of the type. -/
def samplesize : MsSamples → Nat
| .int32s _ => 4
| .floats _ => 4
| .doubles _ => 8

end MsSamples

/-
  `msr_encode_int32`, `msr_encode_float32` and
  `msr_encode_float64`: words while there is room for one.
-/
def encodeFixed
    (host : ByteOrder)
    (swapflag : Bool)
    (w : Nat) :
    List Nat → Nat → List (List UInt8)
| [], _ => []
| x :: xs, outputlength =>
    if w ≤ outputlength then
      storeField host swapflag w x ::
        encodeFixed host swapflag w xs (outputlength - w)
    else
      []

/- Samples and bytes, when there is room for one sample. -/
def packFixed
    (host : ByteOrder)
    (swapflag : Bool)
    (w : Nat)
    (xs : List Nat)
    (maxdatabytes : Nat) :
    Option (Nat × List UInt8) :=
  if maxdatabytes < w then
    none
  else
    let words := encodeFixed host swapflag w xs maxdatabytes
    some (words.length, words.flatten)

/-
  `msr_pack_data`: how many samples are packed, and their
  bytes.  Steim2 is always big-endian.
-/
def msrPackData
    (host : ByteOrder)
    (encoding : Encoding)
    (samples : MsSamples)
    (maxdatabytes : Nat) :
    Option (Nat × List UInt8) :=
  match encoding, samples with
  | .int32, .int32s xs =>
      packFixed host (swap3 host) 4 (xs.map (lowBits 32))
        maxdatabytes
  | .float32, .floats xs =>
      packFixed host (swap3 host) 4 (xs.map UInt32.toNat)
        maxdatabytes
  | .float64, .doubles xs =>
      packFixed host (swap3 host) 8 xs maxdatabytes
  | .steim2, .int32s xs =>
      if maxdatabytes < 64 then none
      else
        msrEncodeSteim2 host (!swap3 host) xs maxdatabytes 0
  | _, _ => none

------------------------------------------------------------
-- Packing
------------------------------------------------------------

/- A record to pack. -/
structure Ms3Record where
  sid : List UInt8
  reclen : Int
  flags : Nat
  starttime : Int
  samprate : Nat
  encoding : Encoding
  pubversion : Nat
  extra : List UInt8
  samples : MsSamples
deriving DecidableEq, Repr

/- `MINRECLEN` and `MAXRECLEN`. -/
def minreclen : Int := 40
def maxreclen : Int := 131172

/- The rate in the header: a period, where it is below one. -/
def samplerateField (period : Nat → Nat) (samprate : Nat) : Nat :=
  let rate := ExtRat.ofBits64 samprate
  if ExtRat.ofInt 0 < rate ∧ rate < ExtRat.ofInt 1 then
    period samprate
  else
    samprate

/-
  `msr3_pack_header3`.  The fields that belong to the data
  are those of the memory that the record is made in.
-/
def msr3PackHeader3
    (period : Nat → Nat)
    (rawrec : List UInt8)
    (msr : Ms3Record) :
    Option Ms3Header :=
  if msr.reclen < minreclen ∨ maxreclen < msr.reclen then none
  else if
    msr.reclen <
      (ms3fsdhLength + msr.sid.length + msr.extra.length : Nat)
  then
    none
  else
    match msNstime2time msr.starttime with
    | none => none
    | some time =>
        if 255 < msr.sid.length then none
        else
          some
            { flags := msr.flags
              time := time
              encoding := msr.encoding.code
              samplerate := samplerateField period msr.samprate
              numsamples := (rawrec.drop 24).take 4
              crc := 0
              pubversion := msr.pubversion
              datalength := (rawrec.drop 36).take 4
              sid := msr.sid
              extra := msr.extra }

/- Where the data starts. -/
def Ms3Header.dataoffset (h : Ms3Header) : Nat :=
  ms3fsdhLength + h.sid.length + h.extra.length

/- A record's bytes at an address that `malloc` returns. -/
def memoryOf (bs : List UInt8) : ByteMem :=
  fun i => bs.getD i.toNat 0

/- The bytes of the record, with their check. -/
def finishRecord
    (host : ByteOrder)
    (h : Ms3Header)
    (payload : List UInt8) :
    List UInt8 :=
  let blank :=
    ({ h with crc := 0 } : Ms3Header).fields host |>.flatten
  let crc :=
    msCrc32c host (memoryOf (blank ++ payload)) 0
      (blank ++ payload).length 0
  ({ h with crc := crc.toNat } : Ms3Header).fields host |>.flatten
    |>.append payload

/- What the handler has been given, and what is returned. -/
structure PackResult where
  records : List (List UInt8)
  packedsamples : Nat
  code : Int
deriving DecidableEq, Repr

/- The record of `packsamples` samples. -/
def dataHeader
    (host : ByteOrder)
    (h : Ms3Header)
    (packsamples datalength : Nat) :
    Ms3Header :=
  { h with
    numsamples := storeField host (swap3 host) 4 packsamples
    datalength := host.bytes 4 (ho2u datalength (swap3 host)) }

/-
  A record from its samples and their bytes; `datalength`
  has 16 bits, and no more bytes than it says are copied.
-/
def dataRecord
    (host : ByteOrder)
    (h : Ms3Header)
    (packsamples : Nat)
    (encoded : List UInt8) :
    List UInt8 :=
  let datalength := encoded.length % 2 ^ 16
  finishRecord host (dataHeader host h packsamples datalength)
    (encoded.take datalength)

/- When the sample with a number was taken. -/
def Ms3Record.sampleTime (msr : Ms3Record) (total : Nat) : Int :=
  msSampletime msr.starttime total (ExtRat.ofBits64 msr.samprate)

/- The loop over the records. -/
def packLoop
    (host : ByteOrder)
    (flush : Bool)
    (maxdatabytes maxsamples : Nat)
    (msr : Ms3Record) :
    Nat → Ms3Header → Nat → List (List UInt8) → PackResult
| 0, _, total, records => ⟨records, total, records.length⟩
| fuel + 1, h, total, records =>
    if maxsamples < msr.samples.length - total ∨ flush then
      match
        msrPackData host msr.encoding (msr.samples.drop total)
          maxdatabytes
      with
      | none => ⟨records, total, -1⟩
      | some (packsamples, encoded) =>
          let records :=
            records ++ [dataRecord host h packsamples encoded]
          let total := total + packsamples
          if msr.samples.length ≤ total then
            ⟨records, total, records.length⟩
          else
            (msNstime2time (msr.sampleTime total)).elim
              ⟨records, total, -1⟩
              (fun time =>
                packLoop host flush maxdatabytes maxsamples msr fuel
                  { h with time := time } total records)
    else
      ⟨records, total, records.length⟩

/-
  `msr3_pack_mseed3`.  Without samples there is one record,
  whose encoding is that of text.  No run takes more steps
  than there are samples.
-/
def msr3PackMseed3
    (host : ByteOrder)
    (period : Nat → Nat)
    (rawrec : List UInt8)
    (flush : Bool)
    (msr : Ms3Record) :
    PackResult :=
  match msr3PackHeader3 period rawrec msr with
  | none => ⟨[], 0, -1⟩
  | some h =>
      if msr.samples.length = 0 then
        ⟨[finishRecord host { h with encoding := 0 } []], 0, 1⟩
      else
        let maxdatabytes := (msr.reclen - h.dataoffset).toNat
        let maxsamples :=
          match msr.encoding with
          | .steim2 => maxdatabytes / 64 * 105
          | _ => maxdatabytes / msr.samples.samplesize
        packLoop host flush maxdatabytes maxsamples msr
          msr.samples.length h 0 []

end TankConvertor
