import TankConvertor.Convert.Contiguous
import TankConvertor.Convert.Tank
import TankConvertor.Scan.Grouping

/-
  What the converters read of a tracebuf depends on the
  tracebuf alone: not on where it lies, nor on what lies
  around it.

  Key definitions include:
    * `Packet.SameData`
    * `Tracebuf.packet`

  Key theorems include:
    * `Packet.SameData.words_eq`
    * `sameData_of_holds`
    * `packet_wellFormed`
-/

------------------------------------------------------------
-- Packets With The Same Data
------------------------------------------------------------

namespace TankConvertor

open Trace2Header ByteMem

/- Two packets that the converters cannot tell apart. -/
structure Packet.SameData (p q : Packet) : Prop
    extends p.SameShape q where
  data :
    ∀ i, i < p.dataSize →
      p.text (headerRest + i) = q.text (headerRest + i)

section SameData

variable {p q : Packet} {k : SampleKind} {n : Nat}

theorem Packet.SameData.symm
    (h : p.SameData q) :
    q.SameData p where
  nsamp := h.nsamp.symm
  starttime := h.starttime.symm
  endtime := h.endtime.symm
  samprate := h.samprate.symm
  size := h.size.symm
  format := h.format.symm
  data := by
    intro i hi
    refine (h.data i ?_).symm
    unfold Packet.dataSize at hi ⊢
    rw [h.size]
    exact hi

theorem Packet.SameData.wellFormed
    (h : p.SameData q)
    (hp : p.WellFormed k n) :
    q.WellFormed k n where
  format := h.format ▸ hp.format
  nsamp := h.nsamp ▸ hp.nsamp
  few := hp.few
  size := h.size ▸ hp.size

/- Every sample has the same bytes. -/
theorem Packet.SameData.dataAt_eq
    (h : p.SameData q)
    (hp : p.WellFormed k n)
    {j : Nat}
    (hj : j < n) :
    p.dataAt (k.width * j) k.width =
      q.dataAt (k.width * j) k.width := by
  have hLast : k.width * (j + 1) ≤ k.width * n :=
    Nat.mul_le_mul_left _ hj
  rw [Nat.mul_succ] at hLast
  unfold Packet.dataAt
  apply List.map_congr_left
  intro i hi
  have hLt := List.mem_range.mp hi
  rw [Nat.add_assoc]
  apply h.data
  rw [hp.dataSize_eq]
  omega

theorem Packet.SameData.words_eq
    (h : p.SameData q)
    (hp : p.WellFormed k n)
    (host : ByteOrder) :
    p.words host = q.words host := by
  rw [hp.words_eq, (h.wellFormed hp).words_eq]
  unfold Packet.sacwords
  apply List.map_congr_left
  intro j hj
  rw [h.dataAt_eq hp (List.mem_range.mp hj)]

end SameData

------------------------------------------------------------
-- The Packet Of A Tracebuf
------------------------------------------------------------

section Holds

variable [Rounding]
variable {host : ByteOrder} {t : Tracebuf}
variable {m m' : ByteMem} {p p' : Int}

/- Bytes of a tracebuf, wherever it lies. -/
theorem Tracebuf.Holds.byte_eq
    (h : t.Holds m p host)
    (h' : t.Holds m' p' host)
    {j : Nat}
    (hj : j < t.size) :
    m (p + j) = m' (p' + j) := by
  have hRead : m.read p t.size = m'.read p' t.size := by
    have hHeld := Tracebuf.holdsAt_encode_iff.mpr h
    have hHeld' := Tracebuf.holdsAt_encode_iff.mpr h'
    unfold HoldsAt at hHeld hHeld'
    rw [Tracebuf.length_encode] at hHeld hHeld'
    exact hHeld.trans hHeld'.symm
  have hLen : j < (m.read p t.size).length := by
    rw [length_read]
    exact hj
  have hLen' : j < (m'.read p' t.size).length := by
    rw [length_read]
    exact hj
  rw [← getElem_read m p hLen, ← getElem_read m' p' hLen']
  simp only [hRead]

theorem format_of_holds
    (h : t.Holds m p host) :
    (packetAt host m (entryOf (p, t))).format =
      some t.kind := by
  rw [format_packetAt]
  change
    formatOf (datatype0 m p) (bytePerSample m p) = some t.kind
  unfold datatype0
  rw [h.letter, h.bytePerSample_eq, formatOf_letter]

theorem wellFormed_of_holds
    (h : t.Holds m p host) :
    (packetAt host m (entryOf (p, t))).WellFormed t.kind
      t.samples.length where
  format := format_of_holds h
  nsamp := h.nsamp_eq
  few := t.few
  size := rfl

theorem sameData_of_holds
    (h : t.Holds m p host)
    (h' : t.Holds m' p' host) :
    (packetAt host m (entryOf (p, t))).SameData
      (packetAt host m' (entryOf (p', t))) where
  nsamp := h.nsamp_eq.trans h'.nsamp_eq.symm
  starttime := h.starttime_eq.trans h'.starttime_eq.symm
  endtime := h.endtime_eq.trans h'.endtime_eq.symm
  samprate := h.samprate_eq.trans h'.samprate_eq.symm
  size := rfl
  format := (format_of_holds h).trans (format_of_holds h').symm
  data := by
    intro i hi
    have hIn : 64 + i < t.size := by
      have hData := (wellFormed_of_holds h).dataSize_eq
      rw [hData] at hi
      unfold Tracebuf.size sizeofTrace2Header
      omega
    have hByte := h.byte_eq h' hIn
    change
      m (p + 57 + ((headerRest + i : Nat) : Int)) =
        m' (p' + 57 + ((headerRest + i : Nat) : Int))
    unfold headerRest
    push_cast at hByte ⊢
    convert hByte using 2 <;> ring

end Holds

/- The packet of a tracebuf that stands alone. -/
def Tracebuf.packet
    [Rounding]
    (host : ByteOrder)
    (t : Tracebuf) :
    Packet :=
  packetAt host (mapTank (t.encode host) (fun _ => 0))
    (entryOf (0, t))

theorem holds_alone
    [Rounding]
    (host : ByteOrder)
    (t : Tracebuf) :
    t.Holds (mapTank (t.encode host) (fun _ => 0)) 0 host :=
  Tracebuf.holdsAt_encode_iff.mp (holdsAt_mapTank _ _)

theorem packet_wellFormed
    [Rounding]
    (host : ByteOrder)
    (t : Tracebuf) :
    (t.packet host).WellFormed t.kind t.samples.length :=
  wellFormed_of_holds (holds_alone host t)

theorem sameData_packet
    [Rounding]
    {host : ByteOrder}
    {t : Tracebuf}
    {m : ByteMem}
    {p : Int}
    (h : t.Holds m p host) :
    (packetAt host m (entryOf (p, t))).SameData
      (t.packet host) :=
  sameData_of_holds h (holds_alone host t)

end TankConvertor
