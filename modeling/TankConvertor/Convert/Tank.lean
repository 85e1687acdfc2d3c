import TankConvertor.Convert.Packet
import TankConvertor.Scan.Model

/-
  The packets that the entries of a trace stand for in the
  mapped tank.

  Key definitions include:
    * `packetAt`
    * `TraceNode.packets`
-/

namespace TankConvertor

open Trace2Header

/- The message that an entry names, read in the host's order. -/
def packetAt
    (host : ByteOrder)
    (m : ByteMem)
    (e : TBuf) :
    Packet where
  nsamp := nsamp host m e.offset
  starttime := starttime host m e.offset
  endtime := endtime host m e.offset
  samprate := samprate host m e.offset
  text := fun i => m (e.offset + 57 + i)
  size := e.size

/- The entries that count, as the converters go through them. -/
def TraceNode.packets
    (host : ByteOrder)
    (m : ByteMem)
    (n : TraceNode) :
    List Packet :=
  n.stored.map (packetAt host m)

/- The converters read the same number as the scan. -/
theorem bytePerSample_packetAt
    (host : ByteOrder)
    (m : ByteMem)
    (e : TBuf) :
    (packetAt host m e).bytePerSample =
      bytePerSample m e.offset := by
  unfold Packet.bytePerSample bytePerSample ByteMem.read packetAt
  congr 1
  apply List.map_congr_left
  intro i _
  simp only
  congr 1
  push_cast
  ring

theorem format_packetAt
    (host : ByteOrder)
    (m : ByteMem)
    (e : TBuf) :
    (packetAt host m e).format =
      formatOf (datatype0 m e.offset)
        (bytePerSample m e.offset) := by
  unfold Packet.format
  rw [bytePerSample_packetAt]
  simp [packetAt, datatype0]

end TankConvertor
