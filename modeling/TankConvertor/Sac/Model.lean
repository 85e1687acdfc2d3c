import TankConvertor.Library.ForLoop
import TankConvertor.Sac.Header

/-
  `sacproc_trace_output` of `sacproc.c`.

  The output buffer is a SAC header and the words between
  the end of the header and `seis`; `capacity` is the number
  of words up to `outbufend`.  Allocation and file writing
  succeed.  `none` stands for undefined behaviour: a write
  position that its `int` offset cannot hold, or a file that
  would take words which were never stored.

  Key definitions include:
    * `SacState`
    * `enrichSacSamps` and `growOutbuf`
    * `sacBody`
    * `sacprocTraceOutput`
-/

------------------------------------------------------------
-- The Output Buffer
------------------------------------------------------------

namespace TankConvertor

/- The variables of the loop over the packets. -/
structure SacState where
  i : Nat
  header : SacHeader
  words : List SacWord
  capacity : Nat
  nsampTrace : Int
  endtime : ExtRat
  samprate : ExtRat
  gapcount : Int
  nfillMax : Int

namespace SacState

/- Words between `seis` and `outbufend`. -/
def room (s : SacState) : Nat :=
  s.capacity - s.words.length

def buffersiz (s : SacState) : Nat :=
  sacHeaderSize + s.capacity * 4

end SacState

/- `realloc_outbuf` adds `MAX_NUM_TBUF / 2 * 100` words. -/
def growth : Nat := maxNumTbuf / 2 * 100

def reallocOutbuf (s : SacState) : SacState :=
  { s with capacity := s.capacity + growth }

/-
  `REALIGN_SAC_FILE_PARTITION` carries the write position
  over in an `int`.
-/
def realignSacFilePartition
    (s : SacState) :
    Option SacState :=
  if s.words.length < 2 ^ 31 then some s else none

def growOutbuf (s : SacState) : Option SacState :=
  realignSacFilePartition (reallocOutbuf s)

------------------------------------------------------------
-- Copying Samples
------------------------------------------------------------

/-
  Copy samples from `src` on while there is data and room:
  the words written and the source position after them.
-/
def copySamps
    (host : ByteOrder)
    (k : SampleKind)
    (p : Packet) :
    Nat → Nat → List SacWord × Nat
| 0, src => ([], src)
| room + 1, src =>
    if src < p.dataSize then
      let rest := copySamps host k p room (src + k.width)
      (k.sacword host (p.dataAt src k.width) :: rest.1, rest.2)
    else
      ([], src)

/-
  The state and the source position after the copy, or
  nothing for a format that the routine does not know.
-/
def enrichSacSamps
    (host : ByteOrder)
    (p : Packet)
    (src : Nat)
    (s : SacState) :
    Option (SacState × Nat) :=
  match p.format with
  | none => none
  | some k =>
      let copied := copySamps host k p s.room src
      some ({ s with words := s.words ++ copied.1 }, copied.2)

/- The end of the body: the packet becomes the last one. -/
def advance (p : Packet) (s : SacState) : SacState :=
  { s with
    endtime := p.endtime
    nsampTrace := wrap32 (s.nsampTrace + p.nsamp) }

/- Copy a packet, in two parts when the buffer fills up. -/
def storePacket
    (host : ByteOrder)
    (p : Packet)
    (s : SacState) :
    Option SacState :=
  match enrichSacSamps host p 0 s with
  | none => some s
  | some (s, src) =>
      if s.capacity ≤ s.words.length then
        match growOutbuf s with
        | none => none
        | some s =>
            match enrichSacSamps host p src s with
            | none => some s
            | some (s, _) => some (advance p s)
      else
        some (advance p s)

------------------------------------------------------------
-- Gaps And Duplicates
------------------------------------------------------------

def GapBefore [Rounding] (s : SacState) (p : Packet) : Prop :=
  Rounding.double
      (s.endtime +
        Rounding.double (ExtRat.ofInt 2 / p.samprate)) <
    p.starttime

instance [Rounding] (s : SacState) (p : Packet) :
    Decidable (GapBefore s p) := by
  unfold GapBefore
  infer_instance

def Duplicated [Rounding] (s : SacState) (p : Packet) : Prop :=
  p.endtime <
    Rounding.double
      (s.endtime +
        Rounding.double (ExtRat.ofInt 1 / p.samprate))

instance [Rounding] (s : SacState) (p : Packet) :
    Decidable (Duplicated s p) := by
  unfold Duplicated
  infer_instance

/- The product of two singles, a single itself. -/
def nfill [Rounding] (s : SacState) (p : Packet) : Int :=
  (Rounding.single
      (Rounding.single p.samprate *
        Rounding.single
          (Rounding.double (p.starttime - s.endtime)))).truncTo
    (2 ^ 31)

/- A fill count is an `int`. -/
theorem nfill_range
    [Rounding]
    (s : SacState)
    (p : Packet) :
    -2 ^ 31 ≤ nfill s p ∧ nfill s p < 2 ^ 31 :=
  ExtRat.truncTo_range (2 ^ 31) (by decide) _

/- A sum of `int`s, converted to `size_t`. -/
def newsize (s : SacState) (n : Int) : Nat :=
  ((wrap32 (s.nsampTrace + n) * 4 + sacHeaderSize) %
    2 ^ 64).toNat

/- The fill stops at the end of the buffer, the count not. -/
def fillGap (n : Int) (s : SacState) : SacState :=
  { s with
    words :=
      s.words ++ List.replicate (min n.toNat s.room) sacUndef
    nsampTrace := wrap32 (s.nsampTrace + n)
    gapcount := s.gapcount + 1
    nfillMax := max s.nfillMax n }

/- The size after the gap asks for too much. -/
def Bogus (s : SacState) (n : Int) : Prop :=
  s.buffersiz * 2 < newsize s n

instance (s : SacState) (n : Int) :
    Decidable (Bogus s n) := by
  unfold Bogus
  infer_instance

/-
  Make room for a gap, by one growth at most; a bogus gap
  does not get this far.
-/
def roomForGap (n : Int) (s : SacState) : Option SacState :=
  if s.buffersiz < newsize s n then growOutbuf s else some s

------------------------------------------------------------
-- The Loop Over The Packets
------------------------------------------------------------

/- The body for every packet but the first. -/
def nextPacket
    [Rounding]
    (host : ByteOrder)
    (p : Packet)
    (s : SacState) :
    Option SacState :=
  if GapBefore s p then
    let n := nfill s p
    if Bogus s n then some s
    else
      match roomForGap n s with
      | none => none
      | some s => storePacket host p (fillGap n s)
  else if Duplicated s p then some s
  else storePacket host p s

/- One iteration. -/
def sacBody
    [Rounding]
    (host : ByteOrder)
    (s : SacState)
    (p : Packet) :
    Option SacState :=
  let i := s.i
  let s := { s with samprate := p.samprate }
  let after :=
    if 0 < i then nextPacket host p s
    else
      storePacket host p
        { s with
          header := enrichSacStarttime s.header p.starttime }
  after.map (fun s => { s with i := i + 1 })

/-
  The variables before the loop; `now` is what `time` gives.
  `maxtbuf` is unsigned: its product wraps around.
-/
def sacInit (now : Int) (n : TraceNode) : SacState where
  i := 0
  header := sacHeaderOf n
  words := []
  capacity := n.maxtbuf * 100 % 2 ^ 32
  nsampTrace := 0
  endtime := ExtRat.ofInt now
  samprate := ExtRat.ofInt 1
  gapcount := 0
  nfillMax := 0

------------------------------------------------------------
-- The File
------------------------------------------------------------

/- A file: its path, its header and its data section. -/
structure SacFile where
  path : List UInt8
  header : SacHeader
  data : List SacWord

/- Fill in the rest of the header; its floats are singles. -/
def finishHeader [Rounding] (s : SacState) : SacHeader :=
  let h :=
    s.header.setInt SacField.npts (wrap32 s.nsampTrace)
  let delta :=
    Rounding.single
      (Rounding.double (ExtRat.ofInt 1 / s.samprate))
  let h := h.setFloat SacField.delta delta
  h.setFloat SacField.e
    (Rounding.single
      (Rounding.single (ExtRat.ofInt s.nsampTrace) * delta))

/-
  `write_sac_file`: `npts` words are written, whatever is
  in the buffer.
-/
def writeSacFile
    (path : List UInt8)
    (h : SacHeader)
    (words : List SacWord) :
    Option SacFile :=
  let npts := h.int SacField.npts
  if 0 ≤ npts ∧ npts ≤ words.length then
    some ⟨path, h, words.take npts.toNat⟩
  else
    none

/- `"%s/%s_%s_%s_%s.sac"`. -/
def sacPath
    (outpath : List UInt8)
    (n : TraceNode) :
    List UInt8 :=
  cstr outpath ++ [ch '/'] ++ cstr n.fromSta ++ [ch '_'] ++
    cstr n.fromChan ++ [ch '_'] ++ cstr n.fromNet ++ [ch '_'] ++
    cstr n.fromLoc ++ ['.', 's', 'a', 'c'].map ch

/- What follows the loop. -/
def sacFinish
    [Rounding]
    (outpath : List UInt8)
    (n : TraceNode)
    (s : SacState) :
    Option SacFile :=
  writeSacFile (sacPath outpath n) (finishHeader s) s.words

/-
  `sacproc_trace_output` on a trace, given with the packets
  that its entries stand for.
-/
def sacprocTraceOutput
    [Rounding]
    (host : ByteOrder)
    (now : Int)
    (outpath : List UInt8)
    (n : TraceNode)
    (packets : List Packet) :
    Option SacFile :=
  match packets.foldlM (sacBody host) (sacInit now n) with
  | none => none
  | some s => sacFinish outpath n s

end TankConvertor
