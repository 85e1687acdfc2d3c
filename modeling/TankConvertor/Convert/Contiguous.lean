import TankConvertor.Convert.Packet
import TankConvertor.Library.Blocks

/-
  Traces of packets at one sample rate, and those without
  gaps or overlaps.

  Key definitions include:
    * `Packet.Regular`, `Packet.Steady`, `Packet.Timed`
    * `Packet.Abuts`
    * `Contiguous`
    * `totalSamples`
    * `Packet.SameShape`

  Key theorems include:
    * `length_flatMap_words`
    * `Contiguous.abuts_last`
    * `Contiguous.start_eq`
    * `Contiguous.of_sameShape`
    * `singles_contiguous`
-/

------------------------------------------------------------
-- Regular Packets
------------------------------------------------------------

namespace TankConvertor

/-
  A well-formed packet with at least one sample, at rate
  `sr`, whose end time is the time of its last sample.
-/
structure Packet.Regular (sr : ℚ) (p : Packet) : Prop where
  wellFormed : p.IsWellFormed
  pos : 1 ≤ p.nsamp
  samprate : p.samprate = .fin sr
  start : p.starttime.IsFinite
  stop : p.endtime.IsFinite
  last :
    p.endtime.toRat =
      p.starttime.toRat + ((p.nsamp : ℚ) - 1) / sr

/- The same of a packet that may have no sample. -/
structure Packet.Steady (sr : ℚ) (p : Packet) : Prop where
  wellFormed : p.IsWellFormed
  samprate : p.samprate = .fin sr
  start : p.starttime.IsFinite
  stop : p.endtime.IsFinite
  last :
    p.endtime.toRat =
      p.starttime.toRat + ((p.nsamp : ℚ) - 1) / sr

theorem Packet.Regular.steady
    {sr : ℚ}
    {p : Packet}
    (hp : p.Regular sr) :
    p.Steady sr :=
  ⟨hp.wellFormed, hp.samprate, hp.start, hp.stop, hp.last⟩

/- The rate and the times are numbers. -/
structure Packet.Timed (sr : ℚ) (p : Packet) : Prop where
  samprate : p.samprate = .fin sr
  start : p.starttime.IsFinite
  stop : p.endtime.IsFinite

theorem Packet.Steady.timed
    {sr : ℚ}
    {p : Packet}
    (hp : p.Steady sr) :
    p.Timed sr :=
  ⟨hp.samprate, hp.start, hp.stop⟩

theorem Packet.Regular.timed
    {sr : ℚ}
    {p : Packet}
    (hp : p.Regular sr) :
    p.Timed sr :=
  hp.steady.timed

/- `q` starts one sample interval after the end of `p`. -/
def Packet.Abuts (sr : ℚ) (p q : Packet) : Prop :=
  q.starttime.toRat = p.endtime.toRat + 1 / sr

/- One sample rate, no gap, no overlap. -/
structure Contiguous
    (sr : ℚ)
    (packets : List Packet) : Prop where
  regular : ∀ p ∈ packets, p.Regular sr
  chain : packets.IsChain (Packet.Abuts sr)

/- The sum of all `nsamp`. -/
def totalSamples (packets : List Packet) : Nat :=
  (packets.map (fun p => p.nsamp.toNat)).sum

@[simp] theorem totalSamples_append
    (ps qs : List Packet) :
    totalSamples (ps ++ qs) =
      totalSamples ps + totalSamples qs := by
  simp [totalSamples]

@[simp] theorem totalSamples_cons
    (p : Packet)
    (ps : List Packet) :
    totalSamples (p :: ps) =
      p.nsamp.toNat + totalSamples ps := by
  simp [totalSamples]

@[simp] theorem totalSamples_nil :
    totalSamples [] = 0 := rfl

theorem Packet.IsWellFormed.length_words
    {p : Packet}
    (h : p.IsWellFormed)
    (host : ByteOrder) :
    (p.words host).length = p.nsamp.toNat := by
  rcases h with ⟨k, n, h⟩
  rw [h.length_words, h.nsamp, Int.toNat_natCast]

/- All samples of all packets. -/
theorem length_flatMap_words
    (host : ByteOrder)
    {packets : List Packet}
    (hWell : ∀ p ∈ packets, p.IsWellFormed) :
    (packets.flatMap (Packet.words host)).length =
      totalSamples packets := by
  induction packets with
  | nil => rfl
  | cons p packets ih =>
      have hHead := hWell p List.mem_cons_self
      have hRest := ih (fun q hq => hWell q (List.mem_cons_of_mem _ hq))
      rw [List.flatMap_cons, List.length_append, hRest,
        hHead.length_words, totalSamples_cons]

------------------------------------------------------------
-- Contiguous Traces
------------------------------------------------------------

theorem Contiguous.wellFormed
    {sr : ℚ}
    {packets : List Packet}
    (h : Contiguous sr packets) :
    ∀ p ∈ packets, p.IsWellFormed :=
  fun p hp => (h.regular p hp).wellFormed

/- Each packet continues the one before it. -/
theorem Contiguous.abuts_last
    {sr : ℚ}
    {pre post : List Packet}
    {p : Packet}
    (h : Contiguous sr (pre ++ p :: post)) :
    ∀ q ∈ pre.getLast?, q.Abuts sr p := by
  intro q hq
  have hSplit := List.isChain_append.mp h.chain
  exact hSplit.2.2 q hq p (by simp)

theorem Contiguous.append_left
    {sr : ℚ}
    {pre post : List Packet}
    (h : Contiguous sr (pre ++ post)) :
    Contiguous sr pre where
  regular := fun p hp => h.regular p (List.mem_append_left _ hp)
  chain := (List.isChain_append.mp h.chain).1

/- The samples before a packet give its start time. -/
theorem Contiguous.start_eq
    {sr : ℚ}
    {pre post : List Packet}
    {first p : Packet}
    (h : Contiguous sr (pre ++ p :: post))
    (hFirst : first ∈ (pre ++ p :: post).head?) :
    p.starttime.toRat =
      first.starttime.toRat + totalSamples pre / sr := by
  induction pre generalizing first with
  | nil =>
      obtain rfl : p = first := by simpa using hFirst
      simp
  | cons a pre ih =>
      obtain rfl : a = first := by simpa using hFirst
      have hTail : Contiguous sr (pre ++ p :: post) :=
        ⟨fun q hq => h.regular q (List.mem_cons_of_mem _ hq),
          h.chain.of_cons⟩
      have ha := h.regular a (by simp)
      have hNsamp : ((a.nsamp.toNat : Nat) : ℚ) = a.nsamp := by
        have hPos := ha.pos
        exact_mod_cast Int.toNat_of_nonneg (by omega)
      cases hHead : (pre ++ p :: post).head? with
      | none => simp at hHead
      | some b =>
          have hAbuts : a.Abuts sr b :=
            List.isChain_cons.mp h.chain |>.1 b hHead
          have hStart := ih hTail hHead
          rw [hStart, hAbuts, ha.last, totalSamples_cons]
          push_cast
          rw [hNsamp]
          ring

------------------------------------------------------------
-- Traces Of The Same Shape
------------------------------------------------------------

/- Two packets that differ in sample values at most. -/
structure Packet.SameShape (p q : Packet) : Prop where
  nsamp : p.nsamp = q.nsamp
  starttime : p.starttime = q.starttime
  endtime : p.endtime = q.endtime
  samprate : p.samprate = q.samprate
  size : p.size = q.size
  format : p.format = q.format

theorem Packet.SameShape.regular
    {sr : ℚ}
    {p q : Packet}
    (hSame : p.SameShape q)
    (hp : p.Regular sr) :
    q.Regular sr where
  wellFormed := by
    rcases hp.wellFormed with ⟨k, n, h⟩
    exact ⟨k, n, hSame.format ▸ h.format, hSame.nsamp ▸ h.nsamp,
      h.few, hSame.size ▸ h.size⟩
  pos := hSame.nsamp ▸ hp.pos
  samprate := hSame.samprate ▸ hp.samprate
  start := hSame.starttime ▸ hp.start
  stop := hSame.endtime ▸ hp.stop
  last := by
    rw [← hSame.endtime, ← hSame.starttime, ← hSame.nsamp]
    exact hp.last

theorem totalSamples_sameShape
    {ps qs : List Packet}
    (hSame : List.Forall₂ Packet.SameShape ps qs) :
    totalSamples ps = totalSamples qs := by
  induction hSame with
  | nil => rfl
  | @cons p q ps qs hpq hRest ih =>
      rw [totalSamples_cons, totalSamples_cons, hpq.nsamp, ih]

theorem regular_of_sameShape
    {sr : ℚ}
    {ps qs : List Packet}
    (hSame : List.Forall₂ Packet.SameShape ps qs)
    (hRegular : ∀ p ∈ ps, p.Regular sr) :
    ∀ q ∈ qs, q.Regular sr := by
  induction hSame with
  | nil => simp
  | @cons p q ps qs hpq hRest ih =>
      intro r hr
      rcases List.mem_cons.mp hr with rfl | hr
      · exact hpq.regular (hRegular p List.mem_cons_self)
      · exact ih
          (fun t ht => hRegular t (List.mem_cons_of_mem _ ht)) r hr

theorem Contiguous.of_sameShape
    {sr : ℚ}
    {ps qs : List Packet}
    (hSame : List.Forall₂ Packet.SameShape ps qs)
    (hC : Contiguous sr ps) :
    Contiguous sr qs where
  regular := regular_of_sameShape hSame hC.regular
  chain := by
    apply Blocks.isChain_of_forall₂ _ hSame hC.chain
    intro a b c d hac hbd hAbuts
    unfold Packet.Abuts
    rw [← hac.endtime, ← hbd.starttime]
    exact hAbuts

------------------------------------------------------------
-- A Trace Of Any Length
------------------------------------------------------------

/- One sample a second, from zero on. -/
def singles (m : Nat) : List Packet :=
  (List.range m).map (fun i : Nat => Packet.single (i : Int))

theorem single_regular
    (t : Int) :
    (Packet.single t).Regular 1 where
  wellFormed := ⟨.i4, 1, Packet.single_wellFormed t⟩
  pos := le_rfl
  samprate := rfl
  start := trivial
  stop := trivial
  last := by simp [Packet.single]

theorem singles_contiguous
    (m : Nat) :
    Contiguous 1 (singles m) where
  regular := by
    intro p hp
    rcases List.mem_map.mp hp with ⟨i, -, rfl⟩
    exact single_regular i
  chain := by
    unfold singles
    rw [List.isChain_map, List.isChain_range]
    intro i _
    simp [Packet.Abuts, Packet.single]

theorem totalSamples_singles
    (m : Nat) :
    totalSamples (singles m) = m := by
  simp [totalSamples, singles, Packet.single, Function.comp_def]

end TankConvertor
