import TankConvertor.Mseed.Agreement
import TankConvertor.Mseed.SourceId
import TankConvertor.Time.Model

/-
  `mstl3_addmsr`, with the arguments that the converter
  passes: no splitting by version, autohealing, no record
  pointers, and the default tolerances.

  A trace is found by its source identifier, and so is the
  one that was accessed last.
-/

------------------------------------------------------------
-- Records and Segments
------------------------------------------------------------

namespace TankConvertor

/- A record; `samplecnt` and `numsamples` count its samples. -/
structure TraceRecord where
  sid : List UInt8
  pubversion : Nat
  starttime : Int
  samprate : ExtRat
  samples : MsSamples
deriving DecidableEq, Repr

structure MsSegment where
  starttime : Int
  endtime : Int
  samprate : ExtRat
  samples : MsSamples
deriving DecidableEq, Repr

structure MsTraceID where
  sid : List UInt8
  pubversion : Nat
  earliest : Int
  latest : Int
  segments : List MsSegment
deriving DecidableEq, Repr

structure MsTraceList where
  traces : List MsTraceID
  last : Option (List UInt8)
deriving DecidableEq, Repr

/- `mstl3_init`. -/
def MsTraceList.init : MsTraceList := ⟨[], none⟩

namespace TraceRecord

/- `msr3_endtime`. -/
def endtime (r : TraceRecord) : Int :=
  msSampletime r.starttime (r.samples.length - 1 : Nat) r.samprate

/- `msr3_sampratehz`. -/
def sampratehz (r : TraceRecord) : ExtRat :=
  if r.samprate < ExtRat.ofInt 0 then
    binary64.round (ExtRat.ofInt (-1) / r.samprate)
  else
    r.samprate

/- The sample period. -/
def nsdelta (r : TraceRecord) : Int :=
  let modulus := ExtRat.ofInt nstModulus
  if ExtRat.ofInt 0 < r.samprate then
    (binary64.round (modulus / r.samprate)).truncTo (2 ^ 63)
  else if r.samprate < ExtRat.ofInt 0 then
    (binary64.round (modulus * -r.samprate)).truncTo (2 ^ 63)
  else
    0

/- The tolerance, half of the period. -/
def nstimetol (r : TraceRecord) : Int :=
  (binary64.round
    (ExtRat.fin (1 / 2) *
      binary64.round (ExtRat.ofInt r.nsdelta))).truncTo (2 ^ 63)

/- A gap that the record may have to a segment. -/
def Fits (r : TraceRecord) (gap : Int) : Prop :=
  gap ≤ r.nstimetol ∧ -r.nstimetol ≤ gap

instance (r : TraceRecord) (gap : Int) : Decidable (r.Fits gap) :=
  inferInstanceAs (Decidable (_ ∧ _))

/-
  From an end to a start, less the sample period: a
  difference of 64 bits.
-/
def gap (r : TraceRecord) (stop start : Int) : Int :=
  wrap64 (start - stop - r.nsdelta)

/- From the end of a segment to the record. -/
def postgap (r : TraceRecord) (s : MsSegment) : Int :=
  r.gap s.endtime r.starttime

/- From the record to the start of a segment. -/
def pregap (r : TraceRecord) (s : MsSegment) : Int :=
  r.gap r.endtime s.starttime

/- `MS_ISRATETOLERABLE`; the bound is the double next to 0.0001. -/
def RateTolerable (r : TraceRecord) (s : MsSegment) : Prop :=
  let bound := ExtRat.ofBits64 0x3F1A36E2EB1C432D
  let d :=
    binary64.round
      (ExtRat.ofInt 1 - binary64.round (r.sampratehz / s.samprate))
  d < bound ∧ -bound < d

instance (r : TraceRecord) (s : MsSegment) :
    Decidable (r.RateTolerable s) := by
  unfold RateTolerable
  infer_instance

/- `mstl3_msr2seg`. -/
def segment (r : TraceRecord) : MsSegment where
  starttime := r.starttime
  endtime := r.endtime
  samprate := r.sampratehz
  samples := r.samples

end TraceRecord

/- Samples of one type, one behind the other. -/
def MsSamples.append : MsSamples → MsSamples → Option MsSamples
| .int32s xs, .int32s ys => some (.int32s (xs ++ ys))
| .floats xs, .floats ys => some (.floats (xs ++ ys))
| .doubles xs, .doubles ys => some (.doubles (xs ++ ys))
| _, _ => none

namespace MsSegment

/- `mstl3_addmsrtoseg` with 1: at the end of the segment. -/
def addAtEnd (r : TraceRecord) (s : MsSegment) : Option MsSegment :=
  if r.samples.length = 0 then
    some { s with endtime := r.endtime }
  else
    (s.samples.append r.samples).map fun samples =>
      { s with endtime := r.endtime, samples := samples }

/- `mstl3_addmsrtoseg` with 2: at its beginning. -/
def addAtStart
    (r : TraceRecord)
    (s : MsSegment) :
    Option MsSegment :=
  if r.samples.length = 0 then
    some { s with starttime := r.starttime }
  else
    (r.samples.append s.samples).map fun samples =>
      { s with starttime := r.starttime, samples := samples }

/- `mstl3_addsegtoseg`: `s₂` behind `s₁`. -/
def addSeg (s₁ s₂ : MsSegment) : Option MsSegment :=
  if s₂.samples.length = 0 then
    some { s₁ with endtime := s₂.endtime }
  else
    (s₁.samples.append s₂.samples).map fun samples =>
      { s₁ with endtime := s₂.endtime, samples := samples }

end MsSegment

------------------------------------------------------------
-- Where a Record Belongs
------------------------------------------------------------

/-
  The end of a segment, the beginning of one, the gap between
  two, or a place for a new one in the list.
-/
inductive Place where
| endOf (i : Nat)
| startOf (j : Nat)
| between (i j : Nat)
| newAt (k : Nat)
deriving DecidableEq, Repr

/- `segbefore`, `segafter` and `followseg`. -/
structure Search where
  before : Option Nat
  after : Option Nat
  follow : Option Nat
deriving DecidableEq, Repr

/-
  The search of the complete segment list.  Where a segment
  would do for both, it counts as the one behind.
-/
def searchSegs
    (r : TraceRecord) :
    List MsSegment → Nat → Search → Search
| [], _, f => f
| s :: segs, k, f =>
    let f :=
      if s.starttime < r.starttime then
        { f with follow := some k }
      else
        f
    if f.after = none ∧ r.Fits (r.pregap s) then
      if r.RateTolerable s then
        if f.before.isSome then { f with after := some k }
        else searchSegs r segs (k + 1) { f with after := some k }
      else
        searchSegs r segs (k + 1) f
    else if f.before = none ∧ r.Fits (r.postgap s) then
      if r.RateTolerable s then
        if f.after.isSome then { f with before := some k }
        else searchSegs r segs (k + 1) { f with before := some k }
      else
        searchSegs r segs (k + 1) f
    else
      searchSegs r segs (k + 1) f

/- What the search says. -/
def Search.place : Search → Place
| ⟨some i, some j, _⟩ => .between i j
| ⟨some i, none, _⟩ => .endOf i
| ⟨none, some j, _⟩ => .startOf j
| ⟨none, none, some k⟩ => .newAt (k + 1)
| ⟨none, none, none⟩ => .newAt 0

/- The simple scenarios, and else the search. -/
def placeFor
    (r : TraceRecord)
    (id : MsTraceID)
    (first last : MsSegment) :
    Place :=
  if r.Fits (r.postgap last) ∧ r.RateTolerable last then
    .endOf (id.segments.length - 1)
  else if
      id.latest < wrap64 (r.starttime - r.nsdelta - r.nstimetol) then
    .newAt id.segments.length
  else if
      wrap64 (r.endtime + r.nsdelta + r.nstimetol) < id.earliest then
    .newAt 0
  else if r.Fits (r.pregap first) ∧ r.RateTolerable first then
    .startOf 0
  else
    (searchSegs r id.segments 0 ⟨none, none, none⟩).place

------------------------------------------------------------
-- Adding
------------------------------------------------------------

/-
  The segments, and where the one is that has the record;
  no such place is an error.
-/
structure Placed where
  segments : List MsSegment
  index : Option Nat
deriving DecidableEq, Repr

/-
  Between two segments the record is added to the one before,
  to which the other is added then.
-/
def putAt
    (r : TraceRecord)
    (segs : List MsSegment) :
    Place → Placed
| .endOf i =>
    match segs[i]?.bind (MsSegment.addAtEnd r) with
    | none => ⟨segs, none⟩
    | some s => ⟨segs.set i s, some i⟩
| .startOf j =>
    match segs[j]?.bind (MsSegment.addAtStart r) with
    | none => ⟨segs, none⟩
    | some s => ⟨segs.set j s, some j⟩
| .between i j =>
    match segs[i]?.bind (MsSegment.addAtEnd r) with
    | none => ⟨segs, none⟩
    | some s =>
        match segs[j]?.bind s.addSeg with
        | none => ⟨segs.set i s, none⟩
        | some s =>
            let k := if j < i then i - 1 else i
            ⟨(segs.eraseIdx j).set k s, some k⟩
| .newAt k => ⟨segs.insertIdx k r.segment, some k⟩

/- Down the list, past those that come before the segment. -/
def moveDown
    (s : MsSegment) :
    List MsSegment → List MsSegment →
      List MsSegment × List MsSegment
| front, [] => (front, [])
| front, n :: rest =>
    if n.starttime < s.starttime ∨
        s.starttime = n.starttime ∧ s.endtime < n.endtime then
      moveDown s (n :: front) rest
    else
      (front, n :: rest)

/- And up; `front` is the list before the segment, backwards. -/
def moveUp
    (s : MsSegment) :
    List MsSegment → List MsSegment →
      List MsSegment × List MsSegment
| [], rest => ([], rest)
| p :: front, rest =>
    if s.starttime < p.starttime ∨
        s.starttime = p.starttime ∧ p.endtime < s.endtime then
      moveUp s front (p :: rest)
    else
      (p :: front, rest)

/- Sort the segment at `k` into place. -/
def settle (segs : List MsSegment) (k : Nat) : List MsSegment :=
  match segs[k]? with
  | none => segs
  | some s =>
      let down := moveDown s (segs.take k).reverse (segs.drop (k + 1))
      let up := moveUp s down.1 down.2
      up.1.reverse ++ s :: up.2

/- A trace with a record added, and whether there was no error. -/
def addToTrace
    (r : TraceRecord)
    (id : MsTraceID) :
    MsTraceID × Bool :=
  match id.segments.head?, id.segments.getLast? with
  | some first, some last =>
      let p := putAt r id.segments (placeFor r id first last)
      match p.index with
      | none => ({ id with segments := p.segments }, false)
      | some k =>
          ({ id with
              segments := settle p.segments k
              pubversion := max id.pubversion r.pubversion
              earliest := min id.earliest r.starttime
              latest := max id.latest r.endtime },
            true)
  | _, _ => (id, false)

/- The trace that a first record makes. -/
def TraceRecord.trace (r : TraceRecord) : MsTraceID where
  sid := r.sid
  pubversion := r.pubversion
  earliest := r.starttime
  latest := r.endtime
  segments := [r.segment]

------------------------------------------------------------
-- Traces
------------------------------------------------------------

/- A `char`, which is signed. -/
def signedChar (b : UInt8) : Int :=
  if b.toNat < 128 then b.toNat else b.toNat - 256

/-
  Source identifiers compared: the difference of the first
  characters that differ, and how many there are before.  Of
  equal ones it is what stands behind the first that is
  compared with the end of the second.
-/
def compareSid (behind : Int) :
    List UInt8 → List UInt8 → Int × Nat
| [], [] => (behind, 1)
| a :: _, [] => (signedChar a, 0)
| [], b :: _ => (-signedChar b, 0)
| a :: s, b :: t =>
    if a = b then
      let c := compareSid behind s t
      (c.1, c.2 + 1)
    else
      (signedChar a - signedChar b, 0)

/-
  What stands behind the identifier of a trace: zeros, or
  `pubversion` if it fills its field.
-/
def MsTraceID.behindSid (id : MsTraceID) : Int :=
  if id.sid.length < lmSidlen - 1 then 0
  else signedChar (UInt8.ofNat id.pubversion)

def MsTraceID.compare
    (id : MsTraceID)
    (sid : List UInt8) :
    Int × Nat :=
  compareSid id.behindSid id.sid sid

/- `ltcmp`, `ltmag` and `ltid`, the latter as a position. -/
structure LessThan where
  cmp : Int
  mag : Nat
  pos : Option Nat
deriving DecidableEq, Repr

/- Where a new trace goes, among traces of other names. -/
def lessThan
    (sid : List UInt8) :
    List MsTraceID → Nat → LessThan → LessThan
| [], _, lt => lt
| id :: ids, k, lt =>
    let c := id.compare sid
    if c.1 < 0 ∧
        ((lt.cmp = 0 ∨ lt.cmp ≤ c.1) ∧ lt.mag ≤ c.2 ∨
          lt.mag < c.2) then
      lessThan sid ids (k + 1) ⟨c.1, c.2, some k⟩
    else
      lessThan sid ids (k + 1) lt

/- The position of the trace of a name. -/
def findTrace
    (sid : List UInt8)
    (ids : List MsTraceID) :
    Option Nat :=
  ids.findIdx? fun id => (id.compare sid).1 = 0

/-
  `mstl3_addmsr`: the trace list, and whether a segment is
  returned.  Before there is a last trace, there is none to
  be found; the last one is found without a search.
-/
def mstl3Addmsr
    (l : MsTraceList)
    (r : TraceRecord) :
    MsTraceList × Bool :=
  if r.endtime = nstError then (l, false)
  else
    match (if l.last = none then none else findTrace r.sid l.traces)
    with
    | some k =>
        match l.traces[k]? with
        | none => (l, false)
        | some id =>
            let added := addToTrace r id
            (⟨l.traces.set k added.1,
                if added.2 then some id.sid else l.last⟩,
              added.2)
    | none =>
        let lt :=
          if l.last = none then ⟨0, 0, none⟩
          else lessThan r.sid l.traces 0 ⟨0, 0, none⟩
        (⟨l.traces.insertIdx (lt.pos.elim 0 (· + 1)) r.trace,
            some r.sid⟩,
          true)

/- A run over records, with what was returned for each. -/
def addRecords :
    MsTraceList → List TraceRecord → MsTraceList × List Bool
| l, [] => (l, [])
| l, r :: rs =>
    let step := mstl3Addmsr l r
    let rest := addRecords step.1 rs
    (rest.1, step.2 :: rest.2)

end TankConvertor
