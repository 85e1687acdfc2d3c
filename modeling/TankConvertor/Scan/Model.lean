import TankConvertor.Library.CString
import TankConvertor.Library.DoLoop
import TankConvertor.Library.SearchTree
import TankConvertor.Swap.Makelocal

/-
  `scan_tracebuf` of `tbconvert.c`, the comparison functions
  of `compare.c` and the data of `tbconvert.h`.

  The tank is mapped at address 0 of the memory and ends at
  `fsize`; what lies around it is arbitrary.  Allocation
  succeeds, except that reallocating to zero bytes gives
  NULL.

  Key definitions include:
    * `TBuf` and `TraceNode`
    * `compareSCNL` and `compareTime`
    * `scanBody` and `scanLoop`
    * `scanTracebuf`
-/

------------------------------------------------------------
-- Trace Nodes
------------------------------------------------------------

namespace TankConvertor

open Trace2Header

/-
  Where a tracebuf lies in the tank, and its end time.  The
  offset is kept as the signed difference of two pointers
  that it is computed as.
-/
structure TBuf where
  offset : Int
  size : Nat
  time : ExtRat
deriving DecidableEq, Repr

/- `calloc` gives zeroed entries. -/
def TBuf.zeroed : TBuf :=
  ⟨0, 0, .fin 0⟩

/- `MAX_NUM_TBUF`. -/
def maxNumTbuf : Nat := 4096

/-
  A trace: its codes, the number of tracebufs stored, the
  number of slots and the slots themselves.
-/
structure TraceNode where
  sta : List UInt8
  chan : List UInt8
  net : List UInt8
  loc : List UInt8
  ntbuf : Nat
  maxtbuf : Nat
  tlist : List TBuf
deriving DecidableEq, Repr

namespace TraceNode

/- The node's bytes from each code on. -/
def fromLoc (n : TraceNode) : List UInt8 := n.loc
def fromNet (n : TraceNode) : List UInt8 := n.net ++ n.fromLoc
def fromChan (n : TraceNode) : List UInt8 := n.chan ++ n.fromNet
def fromSta (n : TraceNode) : List UInt8 := n.sta ++ n.fromChan

/- The entries that count. -/
def stored (n : TraceNode) : List TBuf :=
  n.tlist.take n.ntbuf

end TraceNode

------------------------------------------------------------
-- Comparison Functions
------------------------------------------------------------

def compareSCNL (a b : TraceNode) : Int :=
  let ret := strcmp a.fromSta b.fromSta
  if ret ≠ 0 then ret
  else
    let ret := strcmp a.fromChan b.fromChan
    if ret ≠ 0 then ret
    else
      let ret := strcmp a.fromNet b.fromNet
      if ret ≠ 0 then ret
      else strcmp a.fromLoc b.fromLoc

def compareTime (a b : TBuf) : Int :=
  if b.time < a.time then 1
  else if a.time < b.time then -1
  else 0

------------------------------------------------------------
-- One Iteration Of The Scan
------------------------------------------------------------

/- Blanks before the terminator become dashes. -/
def dashLoc : List UInt8 → List UInt8
| [] => []
| b :: bs =>
    if b = 0 then b :: bs
    else (if b = ch ' ' then ch '-' else b) :: dashLoc bs

/- `tkey`, filled with the codes of the message at `p`. -/
def tkeyOf (m : ByteMem) (p : Int) : TraceNode where
  sta := Trace2Header.sta m p
  chan := Trace2Header.chan m p
  net := Trace2Header.net m p
  loc := dashLoc (Trace2Header.loc m p)
  ntbuf := 0
  maxtbuf := maxNumTbuf
  tlist := []

/- The new node of a trace, with its zeroed slots. -/
def newNode (tkey : TraceNode) : TraceNode :=
  { tkey with
    tlist := List.replicate tkey.maxtbuf TBuf.zeroed }

/-
  `atoi(&datatype[1])`.  The byte at `datatype[1]` is a digit
  other than zero wherever this is called, and a run of 20
  digits is beyond what `strtol` holds: no more is needed.
-/
def bytePerSample (m : ByteMem) (p : Int) : Int :=
  atoi (m.read (p + 58) 20)

/- `byte_per_sample * nsamp`, an `int`. -/
def datalen
    (host : ByteOrder)
    (m : ByteMem)
    (p : Int) :
    Int :=
  wrap32 (bytePerSample m p * nsamp host m p)

/- The entry for the message at `p`; `size_t` is 64 bits. -/
def tbufOf
    (host : ByteOrder)
    (m : ByteMem)
    (p : Int) :
    TBuf where
  offset := p
  size :=
    ((datalen host m p + sizeofTrace2Header) % 2 ^ 64).toNat
  time := endtime host m p

/-
  Double the slots of a full list.  The count of slots is an
  `unsigned int`; the new slots' contents are never read
  before they are written.
-/
def growTlist (n : TraceNode) : TraceNode :=
  if n.maxtbuf ≤ n.ntbuf then
    let maxtbuf := n.maxtbuf * 2 % 2 ^ 32
    { n with
      maxtbuf := maxtbuf
      tlist :=
        (n.tlist ++
          List.replicate (maxtbuf - n.tlist.length)
            TBuf.zeroed).take maxtbuf }
  else
    n

/-
  Write the entry in the first free slot, and keep it when
  it is not too large and the routine succeeded.
-/
def recordTbuf
    (rc : Int)
    (e : TBuf)
    (n : TraceNode) :
    TraceNode :=
  let n := { n with tlist := n.tlist.set n.ntbuf e }
  if maxTracebufSiz < e.size then n
  else
    let n :=
      if rc = 0 then { n with ntbuf := (n.ntbuf + 1) % 2 ^ 32 }
      else n
    growTlist n

/- `realloc` gave NULL for the grown list. -/
def reallocFailed (n : TraceNode) : Bool :=
  n.maxtbuf = 0

/- The variables of the loop. -/
structure ScanState where
  mem : ByteMem
  tankbyte : Int
  root : SearchTree TraceNode
  totaltrace : Int
  skipbyte : Nat

/- Return value, memory left behind and `TraceList`. -/
structure ScanResult where
  ret : Int
  mem : ByteMem
  traceList : List TraceNode

/- Sort the entries that count by time. -/
def sortTlist (n : TraceNode) : TraceNode :=
  { n with
    tlist :=
      n.stored.mergeSort (fun a b => compareTime a b ≤ 0) ++
        n.tlist.drop n.ntbuf }

/- What follows the loop. -/
def scanFinish (s : ScanState) : ScanResult where
  ret := s.totaltrace
  mem := s.mem
  traceList := s.root.twalk.map sortTlist

/- The trace of the key, or the new node made for it. -/
def tnodeFor
    (root : SearchTree TraceNode)
    (tkey : TraceNode) :
    TraceNode :=
  (root.tfind compareSCNL tkey).getD (newNode tkey)

/-
  The state once the message at the cursor has been looked
  up, recorded and passed over.  Adding the entry's size to
  the pointer wraps around just as the size itself does.
-/
def passMessage
    (host : ByteOrder)
    (rc : Int)
    (s : ScanState) :
    ScanState :=
  let tkey := tkeyOf s.mem s.tankbyte
  let known := (s.root.tfind compareSCNL tkey).isSome
  let root :=
    if known then s.root
    else s.root.tsearch compareSCNL (newNode tkey)
  let e := tbufOf host s.mem s.tankbyte
  { s with
    tankbyte :=
      s.tankbyte +
        (datalen host s.mem s.tankbyte + sizeofTrace2Header)
    root := root.update compareSCNL tkey (recordTbuf rc e)
    totaltrace :=
      if known then s.totaltrace
      else wrap32 (s.totaltrace + 1) }

/- The rest of the body for a message not refused with -1. -/
def scanMessage
    (host : ByteOrder)
    (rc : Int)
    (s : ScanState) :
    Iter ScanState ScanResult :=
  let tnode := tnodeFor s.root (tkeyOf s.mem s.tankbyte)
  let e := tbufOf host s.mem s.tankbyte
  if reallocFailed (recordTbuf rc e tnode) then
    .leave ⟨-1, s.mem, []⟩
  else
    .foot (passMessage host rc s)

/- One iteration of the loop. -/
def scanBody
    [Rounding]
    (host : ByteOrder)
    (fsize : Nat)
    (s : ScanState) :
    Iter ScanState ScanResult :=
  let (rc, mem) := swapWavemsg2Makelocal host s.mem s.tankbyte
  if rc = -1 then
    let s' := { s with mem := mem, tankbyte := s.tankbyte + 1 }
    if s'.tankbyte < (fsize : Int) then
      .foot { s' with skipbyte := s.skipbyte + 1 }
    else
      .leave (scanFinish s')
  else
    scanMessage host rc
      { s with
        mem := mem
        skipbyte := if rc = 0 then 0 else s.skipbyte }

/- The loop over a tank that ends at `fsize`. -/
def scanLoop
    [Rounding]
    (host : ByteOrder)
    (fsize : Nat) :
    DoLoop ScanState ScanResult where
  body := scanBody host fsize
  test := fun s => s.tankbyte < (fsize : Int)
  done := scanFinish

/- The variables on entry to the loop. -/
def scanInit (m : ByteMem) : ScanState where
  mem := m
  tankbyte := 0
  root := .leaf
  totaltrace := 0
  skipbyte := 0

/- The scan of a tank with at most `fuel` iterations. -/
def scanTracebuf
    [Rounding]
    (host : ByteOrder)
    (fsize : Nat)
    (fuel : Nat)
    (m : ByteMem) :
    Option ScanResult :=
  (scanLoop host fsize).run fuel (scanInit m)

end TankConvertor
