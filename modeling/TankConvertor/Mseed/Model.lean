import TankConvertor.Convert.Tank

/-
  `msproc_tlist_add` of `msproc.c`.

  The record handed to `mstl3_addmsr` is kept with the
  samples its pointer leads to at that moment.  What
  `mstl3_addmsr` answers is only reported; it copies the
  samples and leaves the pointer alone.  Allocation
  succeeds.

  Key definitions include:
    * `Int32Buf`
    * `MsRecord`
    * `msBody`
    * `msprocTlistAdd`
-/

------------------------------------------------------------
-- The Static Buffer
------------------------------------------------------------

namespace TankConvertor

/- `int32_buf` and `int32_num`, which outlive the call. -/
structure Int32Buf where
  cells : List Int
  num : Int
deriving DecidableEq, Repr

/- Before the first call. -/
def Int32Buf.initial : Int32Buf :=
  ⟨[], 0⟩

/- `realloc` keeps what there is; new cells are arbitrary. -/
def growInt32Buf (nsamp : Int) (b : Int32Buf) : Int32Buf :=
  if b.num < nsamp then
    { cells :=
        (b.cells ++
          List.replicate (nsamp.toNat - b.cells.length) 0).take
            nsamp.toNat
      num := nsamp }
  else
    b

/- Store values one after another from cell `j` on. -/
def storeCells (cells : List Int) : Nat → List Int → List Int
| _, [] => cells
| j, v :: vs => storeCells (cells.set j v) (j + 1) vs

/- The packet's 16-bit samples as they are read in place. -/
def Packet.int16s
    (host : ByteOrder)
    (p : Packet) :
    List Int :=
  (List.range p.nsamp.toNat).map
    (fun j => wrap16 (host.value (p.dataAt (2 * j) 2)))

/- Convert 16-bit integers to 32-bit integers. -/
def widenSamples
    (host : ByteOrder)
    (p : Packet)
    (b : Int32Buf) :
    Int32Buf :=
  let b := growInt32Buf p.nsamp b
  { b with cells := storeCells b.cells 0 (p.int16s host) }

------------------------------------------------------------
-- Records
------------------------------------------------------------

/- Where a record's `datasamples` points. -/
inductive DataPtr where
| null
| tank
| int32Buf
deriving DecidableEq, Repr

/- Sample values; floats and doubles as their bits. -/
inductive MsSamples where
| int32s (xs : List Int)
| floats (xs : List UInt32)
| doubles (xs : List Nat)
deriving DecidableEq, Repr

/- What `ms_nslc2sid` is called with; `none` for NULL. -/
structure SidArgs where
  net : List UInt8
  sta : List UInt8
  loc : Option (List UInt8)
  chan : List UInt8
deriving DecidableEq, Repr

/- A record as `mstl3_addmsr` is given it. -/
structure MsRecord where
  sid : SidArgs
  pubversion : Nat
  starttime : Int
  samprate : ExtRat
  samplecnt : Int
  numsamples : Int
  sampletype : UInt8
  samples : MsSamples
deriving DecidableEq, Repr

/- `LOC_NULL_STRING`. -/
def locNullString : List UInt8 :=
  ['-', '-'].map ch

def sidArgsOf (n : TraceNode) : SidArgs where
  net := cstr n.fromNet
  sta := cstr n.fromSta
  loc :=
    if strcmp n.fromLoc locNullString ≠ 0 then
      some (cstr n.fromLoc)
    else
      none
  chan := cstr n.fromChan

/- `(nstime_t)(MS_EPOCH2NSTIME(t) + 0.5)`, on 64 bits. -/
def nstimeOf [Rounding] (t : ExtRat) : Int :=
  (Rounding.double
      (Rounding.double (t * ExtRat.ofInt 1000000000) +
        ExtRat.fin (1 / 2))).truncTo
    (2 ^ 63)

/- `numsamples` words of `w` bytes at the packet's data. -/
def Packet.rawWords
    (host : ByteOrder)
    (w : Nat)
    (p : Packet) :
    List Nat :=
  (List.range p.nsamp.toNat).map
    (fun j => host.value (p.dataAt (w * j) w))

/- `sampletype`, by the format. -/
def sampletypeOf : SampleKind → UInt8
| .i2 => ch 'i'
| .i4 => ch 'i'
| .f4 => ch 'f'
| .f8 => ch 'd'

/- The samples that the record's pointer leads to. -/
def samplesOf
    (host : ByteOrder)
    (k : SampleKind)
    (p : Packet)
    (b : Int32Buf) :
    MsSamples :=
  match k with
  | .i2 => .int32s (b.cells.take p.nsamp.toNat)
  | .i4 =>
      .int32s
        ((p.rawWords host 4).map (fun v : Nat => wrap32 (v : Int)))
  | .f4 => .floats ((p.rawWords host 4).map UInt32.ofNat)
  | .f8 => .doubles (p.rawWords host 8)

------------------------------------------------------------
-- The Loop Over The Packets
------------------------------------------------------------

/- The variables of the loop, and the records handed over. -/
structure MsState where
  buf : Int32Buf
  datasamples : DataPtr
  records : List MsRecord
  errors : Nat
  lendtime : ExtRat
  gapcount : Int
  nfillMax : Int

/- Keep track of how many gaps and the largest one. -/
def noteGap [Rounding] (p : Packet) (s : MsState) : MsState :=
  if Rounding.double
        (s.lendtime +
          Rounding.double (ExtRat.ofInt 2 / p.samprate)) <
      p.starttime then
    let nfill :=
      (Rounding.single
          (Rounding.single p.samprate *
            Rounding.single
              (Rounding.double
                (p.starttime - s.lendtime)))).truncTo
        (2 ^ 31)
    { s with
      gapcount := s.gapcount + 1
      nfillMax := max s.nfillMax nfill }
  else
    s

@[simp] theorem noteGap_buf
    [Rounding]
    (p : Packet)
    (s : MsState) :
    (noteGap p s).buf = s.buf := by
  simp only [noteGap]
  split_ifs <;> rfl

@[simp] theorem noteGap_records
    [Rounding]
    (p : Packet)
    (s : MsState) :
    (noteGap p s).records = s.records := by
  simp only [noteGap]
  split_ifs <;> rfl

@[simp] theorem noteGap_datasamples
    [Rounding]
    (p : Packet)
    (s : MsState) :
    (noteGap p s).datasamples = s.datasamples := by
  simp only [noteGap]
  split_ifs <;> rfl

/- Hand the record of a packet of a known format over. -/
def addRecord
    [Rounding]
    (host : ByteOrder)
    (addmsr : MsRecord → Bool)
    (sid : SidArgs)
    (k : SampleKind)
    (p : Packet)
    (s : MsState) :
    MsState :=
  let buf :=
    if k = .i2 then widenSamples host p s.buf else s.buf
  let r : MsRecord :=
    { sid := sid
      pubversion := 1
      starttime := nstimeOf p.starttime
      samprate := p.samprate
      samplecnt := p.nsamp
      numsamples := p.nsamp
      sampletype := sampletypeOf k
      samples := samplesOf host k p buf }
  { s with
    buf := buf
    datasamples := .null
    records := s.records ++ [r]
    errors := if addmsr r then s.errors else s.errors + 1
    lendtime := p.endtime }

/-
  One iteration.  A packet of an unknown format is left with
  the record pointing at its data.
-/
def msBody
    [Rounding]
    (host : ByteOrder)
    (addmsr : MsRecord → Bool)
    (sid : SidArgs)
    (s : MsState)
    (p : Packet) :
    MsState :=
  let s := noteGap p { s with datasamples := .tank }
  match p.format with
  | none => s
  | some k => addRecord host addmsr sid k p s

/- The variables before the loop; `now` is what `time` gives. -/
def msInit (now : Int) (buf : Int32Buf) : MsState where
  buf := buf
  datasamples := .null
  records := []
  errors := 0
  lendtime := ExtRat.ofInt now
  gapcount := 0
  nfillMax := 0

/-
  `msproc_tlist_add` on a trace, given with the packets that
  its entries stand for, and the static buffer as the calls
  before have left it: the state in which `msr3_free` is
  reached.
-/
def msprocTlistAdd
    [Rounding]
    (host : ByteOrder)
    (now : Int)
    (addmsr : MsRecord → Bool)
    (buf : Int32Buf)
    (n : TraceNode)
    (packets : List Packet) :
    MsState :=
  packets.foldl (msBody host addmsr (sidArgsOf n))
    (msInit now buf)

/- One call, with everything it depends on. -/
structure MsCall where
  now : Int
  addmsr : MsRecord → Bool
  node : TraceNode
  packets : List Packet

/- The static buffer after a sequence of calls. -/
def bufAfter [Rounding] (host : ByteOrder) (calls : List MsCall) : Int32Buf :=
  calls.foldl
    (fun b c =>
      (msprocTlistAdd host c.now c.addmsr b c.node
        c.packets).buf)
    Int32Buf.initial

end TankConvertor
