import TankConvertor.Library.BitFields
import TankConvertor.Library.Memory

/-
  The Steim2 compression of `packdata.c` and `unpackdata.c`.

  A frame has 16 words.  The first holds two bits for every
  word, which say how the differences are laid out in it; in
  the first frame the two words behind it hold the first and
  the last sample.

  Key definitions include:
    * `bitwidth`
    * `Packing` and `choosePacking`
    * `msrEncodeSteim2`
    * `msrDecodeSteim2`
-/

------------------------------------------------------------
-- Words
------------------------------------------------------------

namespace TankConvertor

open BitFields

/-
  The order in which the words of a frame end up: the host's,
  or the other one where they are swapped.
-/
def wordOrder (host : ByteOrder) (swapflag : Bool) : ByteOrder :=
  if swapflag then host.swap else host

/- A word as it is stored, and swapped by `ms_gswap4`. -/
def storeWord
    (host : ByteOrder)
    (swapflag : Bool)
    (v : Nat) :
    List UInt8 :=
  if swapflag then (host.bytes 4 v).reverse else host.bytes 4 v

def loadWord
    (host : ByteOrder)
    (swapflag : Bool)
    (bs : List UInt8) :
    Nat :=
  host.value (if swapflag then bs.reverse else bs)

/- Words in a frame. -/
def frameWords : Nat := 16

/- Bytes in a frame. -/
def frameBytes : Nat := 64

------------------------------------------------------------
-- Packings
------------------------------------------------------------

/- `BITWIDTH`. -/
def bitwidth (v : Int) : Nat :=
  if -8 ≤ v ∧ v ≤ 7 then 4
  else if -16 ≤ v ∧ v ≤ 15 then 5
  else if -32 ≤ v ∧ v ≤ 31 then 6
  else if -128 ≤ v ∧ v ≤ 127 then 8
  else if -512 ≤ v ∧ v ≤ 511 then 10
  else if -16384 ≤ v ∧ v ≤ 16383 then 15
  else if -32768 ≤ v ∧ v ≤ 32767 then 16
  else if -536870912 ≤ v ∧ v ≤ 536870911 then 30
  else 32

/- The layouts of a word, named by differences and bits. -/
inductive Packing where
| p7x4
| p6x5
| p5x6
| p4x8
| p3x10
| p2x15
| p1x30
deriving DecidableEq, Repr

namespace Packing

/- How many differences the word holds. -/
def count : Packing → Nat
| .p7x4 => 7
| .p6x5 => 6
| .p5x6 => 5
| .p4x8 => 4
| .p3x10 => 3
| .p2x15 => 2
| .p1x30 => 1

/- In how many bits each. -/
def width : Packing → Nat
| .p7x4 => 4
| .p6x5 => 5
| .p5x6 => 6
| .p4x8 => 8
| .p3x10 => 10
| .p2x15 => 15
| .p1x30 => 30

/- The two bits for the word in the first word. -/
def nibble : Packing → Nat
| .p7x4 => 3
| .p6x5 => 3
| .p5x6 => 3
| .p4x8 => 1
| .p3x10 => 2
| .p2x15 => 2
| .p1x30 => 2

/- The two decode bits on top of the word. -/
def dnib : Packing → Nat
| .p7x4 => 2
| .p6x5 => 1
| .p5x6 => 0
| .p4x8 => 0
| .p3x10 => 3
| .p2x15 => 2
| .p1x30 => 1

/- The layout can take the first of the differences. -/
def Takes (k : Packing) (diffs : List Int) : Prop :=
  k.count ≤ diffs.length ∧
    ∀ d ∈ diffs.take k.count, bitwidth d ≤ k.width

instance (k : Packing) (diffs : List Int) :
    Decidable (k.Takes diffs) := by
  unfold Takes
  infer_instance

/-
  The differences in the word: four bytes one after another
  and never swapped, or fields below the decode bits.
-/
def bytes
    (host : ByteOrder)
    (swapflag : Bool)
    (k : Packing)
    (ds : List Int) :
    List UInt8 :=
  match k with
  | .p4x8 => ds.map (fun d => UInt8.ofNat (lowBits 8 d))
  | _ =>
      storeWord host swapflag
        (k.dnib <<< 30 ||| pack k.width (ds.map (lowBits k.width)))

end Packing

/-
  The first layout that can take the differences, of which
  there are never more than seven; nothing when the first
  difference needs more than 30 bits.
-/
def choosePacking (diffs : List Int) : Option Packing :=
  [.p7x4, .p6x5, .p5x6, .p4x8, .p3x10, .p2x15, .p1x30].find?
    (fun k : Packing => decide (k.Takes diffs))

------------------------------------------------------------
-- The Encoder
------------------------------------------------------------

/-
  `diffs` has the `diffcount` differences that are not packed
  yet; the number of samples is that of the input.
-/
structure SteimState where
  diffs : List Int
  inputidx : Nat
  outputsamples : Nat
deriving DecidableEq, Repr

/- A word, with its two bits in the first word. -/
structure SteimWord where
  nibble : Nat
  bytes : List UInt8
deriving DecidableEq, Repr

/- Add differences, up to `room` of them. -/
def addDiffs (input : List Int) : Nat → SteimState → SteimState
| 0, s => s
| room + 1, s =>
    if s.inputidx + 1 < input.length then
      addDiffs input room
        { s with
          diffs :=
            s.diffs ++
              [wrap32
                (input.getD (s.inputidx + 1) 0 -
                  input.getD s.inputidx 0)]
          inputidx := s.inputidx + 1 }
    else
      s

def refill (input : List Int) (s : SteimState) : SteimState :=
  if s.diffs.length < 7 then
    addDiffs input (7 - s.diffs.length) s
  else
    s

/- Fill one word, or fail. -/
def packWord
    (host : ByteOrder)
    (swapflag : Bool)
    (s : SteimState) :
    Option (SteimWord × SteimState) :=
  match choosePacking s.diffs with
  | none => none
  | some k =>
      some
        (⟨k.nibble,
            k.bytes host swapflag (s.diffs.take k.count)⟩,
          { s with
            diffs := s.diffs.drop k.count
            outputsamples := s.outputsamples + k.count })

/- Fill up to `room` words of a frame. -/
def packWords
    (host : ByteOrder)
    (swapflag : Bool)
    (input : List Int) :
    Nat → SteimState → Option (List SteimWord × SteimState)
| 0, s => some ([], s)
| room + 1, s =>
    if s.outputsamples < input.length then
      match packWord host swapflag (refill input s) with
      | none => none
      | some (w, s) =>
          match packWords host swapflag input room s with
          | none => none
          | some (ws, s) => some (w :: ws, s)
    else
      some ([], s)

/- The words of up to `room` frames behind the first one. -/
def packFrames
    (host : ByteOrder)
    (swapflag : Bool)
    (input : List Int) :
    Nat → SteimState → Option (List (List SteimWord) × SteimState)
| 0, s => some ([], s)
| room + 1, s =>
    if s.outputsamples < input.length then
      match packWords host swapflag input 15 s with
      | none => none
      | some (ws, s) =>
          match packFrames host swapflag input room s with
          | none => none
          | some (wss, s) => some (ws :: wss, s)
    else
      some ([], s)

/- The two bits of each word, from word `widx` on. -/
def nibbleBits : Nat → List SteimWord → Nat
| _, [] => 0
| widx, w :: ws =>
    w.nibble <<< (30 - 2 * widx) ||| nibbleBits (widx + 1) ws

/-
  The 16 words of a frame: the bits, what stands in `front`,
  the words, and zeros in what is left.
-/
def frameOf
    (host : ByteOrder)
    (swapflag : Bool)
    (front : List (List UInt8))
    (ws : List SteimWord) :
    List (List UInt8) :=
  storeWord host swapflag (nibbleBits (front.length + 1) ws) ::
    (front ++ (ws.map SteimWord.bytes ++
      List.replicate (frameWords - 1 - front.length - ws.length)
        [0, 0, 0, 0]))

/-
  `msr_encode_steim2`: the number of samples that are packed
  and the frames written.  The last sample goes to the first
  frame at the end.  Without room for a frame nothing is done;
  the callers do not let that happen.
-/
def msrEncodeSteim2
    (host : ByteOrder)
    (swapflag : Bool)
    (input : List Int)
    (outputlength : Nat)
    (diff0 : Int) :
    Option (Nat × List UInt8) :=
  if input.length = 0 then some (0, [])
  else if outputlength = 0 then none
  else
    match outputlength / frameBytes with
    | 0 => some (0, [])
    | maxframes + 1 =>
        match packWords host swapflag input 13 ⟨[diff0], 0, 0⟩ with
        | none => none
        | some (ws, s) =>
            match packFrames host swapflag input maxframes s with
            | none => none
            | some (wss, s) =>
                let x0 := input.getD 0 0
                let xn := input.getD (s.outputsamples - 1) 0
                let front :=
                  [storeWord host swapflag (lowBits 32 x0),
                    storeWord host swapflag (lowBits 32 xn)]
                let frames :=
                  frameOf host swapflag front ws ::
                    wss.map (frameOf host swapflag [])
                some (s.outputsamples, frames.flatten.flatten)

------------------------------------------------------------
-- The Decoder
------------------------------------------------------------

/- `n` differences of `w` bits. -/
def signedFields (w n v : Nat) : List Int :=
  (unpack w n v).map (signExtend w)

/- The differences in a word; impossible bits are an error. -/
def decodeWord
    (host : ByteOrder)
    (swapflag : Bool)
    (nibble : Nat)
    (word : List UInt8) :
    Option (List Int) :=
  let v := loadWord host swapflag word
  match nibble with
  | 0 => some []
  | 1 => some (word.map (fun b => signExtend 8 b.toNat))
  | 2 =>
      match extract v 30 2 with
      | 0 => none
      | 1 => some (signedFields 30 1 v)
      | 2 => some (signedFields 15 2 v)
      | _ => some (signedFields 10 3 v)
  | _ =>
      match extract v 30 2 with
      | 0 => some (signedFields 6 5 v)
      | 1 => some (signedFields 5 6 v)
      | 2 => some (signedFields 4 7 v)
      | _ => none

/- The samples so far, and how many are still asked for. -/
structure DecodeState where
  out : List Int
  samplecount : Nat
deriving DecidableEq, Repr

/- Apply differences; `x0` stands for the first one. -/
def applyDiffs (x0 : Int) : List Int → DecodeState → DecodeState
| [], s => s
| d :: ds, s =>
    if 0 < s.samplecount then
      applyDiffs x0 ds
        { out :=
            s.out ++
              [if s.out = [] then x0
                else wrap32 (s.out.getLastD 0 + d)]
          samplecount := s.samplecount - 1 }
    else
      s

/- The last `room` words of a frame. -/
def decodeWords
    (host : ByteOrder)
    (swapflag : Bool)
    (frame : Nat → List UInt8)
    (x0 : Int) :
    Nat → DecodeState → Option DecodeState
| 0, s => some s
| room + 1, s =>
    if 0 < s.samplecount then
      let widx := frameWords - (room + 1)
      let bits := loadWord host swapflag (frame 0)
      match
        decodeWord host swapflag (extract bits (30 - 2 * widx) 2)
          (frame widx)
      with
      | none => none
      | some ds =>
          decodeWords host swapflag frame x0 room
            (applyDiffs x0 ds s)
    else
      some s

/- Word `widx` of frame `frameidx`. -/
def frameAt
    (input : List UInt8)
    (frameidx widx : Nat) :
    List UInt8 :=
  (input.drop (frameBytes * frameidx + 4 * widx)).take 4

/- Up to `room` frames, from `frameidx` on. -/
def decodeFrames
    (host : ByteOrder)
    (swapflag : Bool)
    (input : List UInt8)
    (x0 : Int) :
    Nat → Nat → DecodeState → Option DecodeState
| 0, _, s => some s
| room + 1, frameidx, s =>
    if 0 < s.samplecount then
      let startnibble := if frameidx = 0 then 3 else 1
      match
        decodeWords host swapflag (frameAt input frameidx) x0
          (frameWords - startnibble) s
      with
      | none => none
      | some s =>
          decodeFrames host swapflag input x0 room (frameidx + 1) s
    else
      some s

/- Samples, and whether the last one is the one announced. -/
structure SteimDecoded where
  samples : List Int
  intact : Bool
deriving DecidableEq, Repr

/-
  `msr_decode_steim2`.  A last sample that is not the one
  announced is only warned about.
-/
def msrDecodeSteim2
    (host : ByteOrder)
    (swapflag : Bool)
    (input : List UInt8)
    (samplecount outputlength : Nat) :
    Option SteimDecoded :=
  if input.length = 0 then some ⟨[], true⟩
  else if outputlength = 0 ∨ input.length / frameBytes = 0 then
    none
  else
    let x0 :=
      if samplecount = 0 then 0
      else wrap32 (loadWord host swapflag (frameAt input 0 1))
    let xn :=
      if samplecount = 0 then 0
      else wrap32 (loadWord host swapflag (frameAt input 0 2))
    match
      decodeFrames host swapflag input x0
        (input.length / frameBytes) 0 ⟨[], samplecount⟩
    with
    | none => none
    | some s =>
        some ⟨s.out, decide (s.out = [] ∨ s.out.getLastD 0 = xn)⟩

end TankConvertor
