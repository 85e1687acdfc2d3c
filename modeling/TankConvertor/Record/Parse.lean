import TankConvertor.Record.Model
import TankConvertor.Mseed.SourceId

/-
  Reading records of version 3: `ms3_detect` and `msr3_parse`
  of `parseutils.c`, `unpack.c`, and the loop of
  `mstl3_readbuffer` over a buffer.

  Key definitions include:
    * `ms3Detect`
    * `msr3DataBounds`
    * `msDecodeData` and `msr3UnpackData`
    * `msr3UnpackMseed3`
    * `msr3Parse`
    * `readBuffer`
-/

------------------------------------------------------------
-- Detection
------------------------------------------------------------

namespace TankConvertor

/- Byte `i` of a record. -/
def byteAt (record : List UInt8) (i : Nat) : Nat :=
  (record.getD i 0).toNat

/- A field of `w` bytes as it stands in memory. -/
def fieldAt
    (host : ByteOrder)
    (swapflag : Bool)
    (record : List UInt8)
    (offset w : Nat) :
    Nat :=
  loadField host swapflag ((record.drop offset).take w)

/- `MS3_ISVALIDHEADER`. -/
def Ms3IsValidHeader (record : List UInt8) : Prop :=
  byteAt record 0 = 'M'.toNat ∧ byteAt record 1 = 'S'.toNat ∧
    byteAt record 2 = 3 ∧ byteAt record 12 ≤ 23 ∧
    byteAt record 13 ≤ 59 ∧ byteAt record 14 ≤ 60

instance (record : List UInt8) :
    Decidable (Ms3IsValidHeader record) := by
  unfold Ms3IsValidHeader
  infer_instance

/-
  `ms3_detect`, for version 3: the length of the record from
  its header.  The two lengths are read as they stand, and
  the sum is kept in 32 bits.
-/
def ms3Detect
    (host : ByteOrder)
    (record : List UInt8) :
    Option Int :=
  if record.length < 40 then none
  else if Ms3IsValidHeader record then
    some
      (wrap32
        (ms3fsdhLength + byteAt record 33 +
            fieldAt host false record 34 2 +
          fieldAt host false record 36 4 : Nat))
  else
    none

------------------------------------------------------------
-- Data
------------------------------------------------------------

/- A record as it is read. -/
structure Ms3Parsed where
  sid : List UInt8
  reclen : Int
  flags : Nat
  starttime : Int
  samprate : Nat
  encoding : Nat
  samplecnt : Nat
  crc : Nat
  pubversion : Nat
  extra : List UInt8
  datalength : Nat
  samples : Option MsSamples
deriving DecidableEq, Repr

/- `while (*datasize > 0 && memcmp (...) == 0)`. -/
def trimFrames (record : List UInt8) : Nat → Nat → Nat
| 0, datasize => datasize
| fuel + 1, datasize =>
    if 0 < datasize ∧
        (record.drop (datasize - 64)).take 64 =
          List.replicate 64 0 then
      trimFrames record fuel (datasize - 64)
    else
      datasize

/- `samplebytes`, for the encodings that have it. -/
def samplebytesOf : Nat → Nat
| 0 => 1
| 1 => 2
| 3 => 4
| 4 => 4
| 5 => 8
| _ => 0

/- `msr3_data_bounds`: where the data is, and how long. -/
def msr3DataBounds
    (record : List UInt8)
    (msr : Ms3Parsed) :
    Nat × Nat :=
  let dataoffset :=
    ms3fsdhLength + (cstr msr.sid).length + msr.extra.length
  let samplebytes := samplebytesOf msr.encoding
  let rawsize := msr.samplecnt * samplebytes
  let datasize :=
    if samplebytes ≠ 0 ∧ rawsize < msr.datalength then
      rawsize % 2 ^ 16
    else
      msr.datalength
  let datasize :=
    if datasize % 64 = 0 ∧
        (msr.encoding = 10 ∨ msr.encoding = 11) then
      trimFrames record datasize datasize
    else
      datasize
  (dataoffset, datasize)

/-
  `msr_decode_int32`, `msr_decode_float32` and
  `msr_decode_float64`: the words of `w` bytes.
-/
def decodeFixed
    (host : ByteOrder)
    (swapflag : Bool)
    (w : Nat) :
    Nat → List UInt8 → List Nat
| 0, _ => []
| n + 1, bs =>
    loadField host swapflag (bs.take w) ::
      decodeFixed host swapflag w n (bs.drop w)

/- Return values of the parser. -/
def msGenerror : Int := -1
def msNotseed : Int := -2
def msOutofrange : Int := -4
def msInvalidcrc : Int := -7

/- The encodings that are modelled, by their codes. -/
def encodingOf (code : Nat) : Option Encoding :=
  [.int32, .float32, .float64, .steim2].find?
    (fun e : Encoding => e.code = code)

/-
  `ms_decode_data`, into a buffer for all samples.  Words
  that the payload does not have are read as zeros.
-/
def msDecodeData
    (host : ByteOrder)
    (encoding : Encoding)
    (input : List UInt8)
    (samplecount : Nat) :
    Except Int MsSamples :=
  let fixed w := decodeFixed host (swap3 host) w samplecount input
  match encoding with
  | .int32 =>
      .ok (.int32s ((fixed 4).map (fun v : Nat => wrap32 v)))
  | .float32 => .ok (.floats ((fixed 4).map UInt32.ofNat))
  | .float64 => .ok (.doubles (fixed 8))
  | .steim2 =>
      match
        msrDecodeSteim2 host (!swap3 host) input samplecount
          (samplecount * 4)
      with
      | none => .error msGenerror
      | some decoded =>
          if decoded.samples.length = samplecount then
            .ok (.int32s decoded.samples)
          else
            .error msGenerror

/- `msr3_unpack_data`, when there are samples. -/
def msr3UnpackData
    (host : ByteOrder)
    (record : List UInt8)
    (msr : Ms3Parsed) :
    Except Int MsSamples :=
  if 2 ^ 31 ≤ msr.samplecnt then .error msGenerror
  else
    let bounds := msr3DataBounds record msr
    if (bounds.1 : Int) < minreclen ∨ msr.reclen ≤ bounds.1 then
      .error msGenerror
    else
      match encodingOf msr.encoding with
      | none => .error msGenerror
      | some encoding =>
          msDecodeData host encoding
            ((record.drop bounds.1).take bounds.2) msr.samplecnt

------------------------------------------------------------
-- Records
------------------------------------------------------------

/- The record with its check set to zero. -/
def blankCrc (record : List UInt8) : List UInt8 :=
  record.take 28 ++ [0, 0, 0, 0] ++ record.drop 32

/-
  `msr3_unpack_mseed3`, of the `reclen` bytes that belong to
  the record; `validate` and `unpack` are the two flags.
-/
def msr3UnpackMseed3
    (host : ByteOrder)
    (validate unpack : Bool)
    (record : List UInt8) :
    Except Int Ms3Parsed :=
  let reclen : Int := record.length
  let swapflag := swap3 host
  let sidlength := byteAt record 33
  let crc := fieldAt host swapflag record 28 4
  let starttime :=
    msTime2nstime
      { year := fieldAt host swapflag record 8 2
        yday := fieldAt host swapflag record 10 2
        hour := byteAt record 12
        min := byteAt record 13
        sec := byteAt record 14
        nsec := fieldAt host swapflag record 4 4 }
  let extralength := fieldAt host swapflag record 34 2
  if reclen < minreclen ∨ maxreclen < reclen then
    .error msOutofrange
  else if ¬ Ms3IsValidHeader record then .error msNotseed
  else if lmSidlen ≤ sidlength then .error msGenerror
  else if
    validate ∧
      BitVec.ofNat 32 crc ≠
        msCrc32c host (memoryOf (blankCrc record)) 0 reclen 0
  then
    .error msInvalidcrc
  else if starttime = nstError then .error msGenerror
  else
    let msr : Ms3Parsed :=
      { sid := cstr ((record.drop 40).take sidlength)
        reclen := reclen
        flags := byteAt record 3
        starttime := starttime
        samprate := fieldAt host swapflag record 16 8
        encoding := byteAt record 15
        samplecnt := fieldAt host swapflag record 24 4
        crc := crc
        pubversion := byteAt record 32
        extra := (record.drop (40 + sidlength)).take extralength
        datalength :=
          ho2u (fieldAt host false record 36 4) swapflag
        samples := none }
    if unpack ∧ 0 < msr.samplecnt then
      match msr3UnpackData host record msr with
      | .error e => .error e
      | .ok samples => .ok { msr with samples := some samples }
    else
      .ok msr

/-
  `msr3_parse`, for version 3: a record, an error, or how
  many more bytes it takes.
-/
def msr3Parse
    (host : ByteOrder)
    (validate unpack : Bool)
    (buffer : List UInt8) :
    Except Int Ms3Parsed :=
  match ms3Detect host buffer with
  | none => .error msNotseed
  | some reclen =>
      if reclen < 0 then .error msNotseed
      else if reclen = 0 then .error minreclen
      else if reclen < minreclen ∨ maxreclen < reclen then
        .error msOutofrange
      else if (buffer.length : Int) < reclen then
        .error (reclen - buffer.length)
      else
        msr3UnpackMseed3 host validate unpack
          (buffer.take reclen.toNat)

/-
  The loop of `mstl3_readbuffer`: records while more than the
  shortest one is left.  An error ends it, and so does a
  record of which more bytes are needed.
-/
def readBuffer
    (host : ByteOrder)
    (validate unpack : Bool) :
    Nat → List UInt8 → List Ms3Parsed × Int
| 0, _ => ([], msGenerror)
| fuel + 1, buffer =>
    if minreclen < buffer.length then
      match msr3Parse host validate unpack buffer with
      | .error e => if e < 0 then ([], e) else ([], 0)
      | .ok msr =>
          let rest :=
            readBuffer host validate unpack fuel
              (buffer.drop msr.reclen.toNat)
          (msr :: rest.1, rest.2)
    else
      ([], 0)

end TankConvertor
