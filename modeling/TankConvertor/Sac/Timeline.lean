import TankConvertor.Sac.Concat

/-
  The time line of the SAC data: when the sample taken some
  intervals after the start of a trace stands that many
  words into the data section.

  Key definitions include:
    * `slot`
    * `OnGrid`
    * `TimelineKept`
    * `Packet.zeroed`

  Key theorems include:
    * `kept_of_contiguous`
    * `break_distance`
    * `not_kept_of_break`
    * `timeline_kept_iff`
-/

------------------------------------------------------------
-- The Time Line
------------------------------------------------------------

namespace TankConvertor

attribute [local instance] Rounding.exact

/- Sample intervals between two start times. -/
def slot (sr : ℚ) (first p : Packet) : Nat :=
  ⌊(p.starttime.toRat - first.starttime.toRat) * sr⌋₊

/-
  Packets at one rate that start whole intervals after the
  first, follow each other without overlap, and lack no more
  than 204800 samples between them.
-/
structure OnGrid
    (sr : ℚ)
    (packets : List Packet) : Prop where
  regular : ∀ p ∈ packets, p.Regular sr
  whole :
    ∀ first ∈ packets.head?, ∀ p ∈ packets, ∃ m : Int,
      (p.starttime.toRat - first.starttime.toRat) * sr = m
  apart :
    packets.IsChain
      (fun p q => p.endtime.toRat < q.starttime.toRat)
  near :
    packets.IsChain
      (fun p q =>
        (q.starttime.toRat - p.endtime.toRat) * sr - 1 ≤ growth)

/-
  Every sample stands at the index of its time, and at the
  indices of no sample there are fill words.
-/
structure TimelineKept
    (host : ByteOrder)
    (sr : ℚ)
    (packets : List Packet)
    (data : List SacWord) : Prop where
  samples :
    ∀ first ∈ packets.head?, ∀ p ∈ packets,
      ∀ j < p.nsamp.toNat,
        data[slot sr first p + j]? = (p.words host)[j]?
  fill :
    ∀ first ∈ packets.head?, ∀ x w, data[x]? = some w →
      (∀ p ∈ packets, ∀ j < p.nsamp.toNat,
        x ≠ slot sr first p + j) →
      w = sacUndef

/- The output is a file whose data section keeps the times. -/
def OutputKeeps
    (host : ByteOrder)
    (sr : ℚ)
    (packets : List Packet)
    (output : Option SacFile) : Prop :=
  ∃ f, output = some f ∧ TimelineKept host sr packets f.data

theorem slot_eq
    {sr : ℚ}
    {first p : Packet}
    {m : Nat}
    (hEq :
      (p.starttime.toRat - first.starttime.toRat) * sr = m) :
    slot sr first p = m := by
  unfold slot
  rw [hEq, Nat.floor_natCast]

------------------------------------------------------------
-- Contiguous Traces Keep It
------------------------------------------------------------

/- In a contiguous trace the slot is the number of samples. -/
theorem slot_of_contiguous
    {sr : ℚ}
    (hPos : 0 < sr)
    {pre post : List Packet}
    {first p : Packet}
    (hC : Contiguous sr (pre ++ p :: post))
    (hFirst : first ∈ (pre ++ p :: post).head?) :
    slot sr first p = totalSamples pre := by
  apply slot_eq
  rw [hC.start_eq hFirst, add_sub_cancel_left,
    div_mul_cancel₀ _ hPos.ne']

theorem kept_of_contiguous
    {host : ByteOrder}
    {sr : ℚ}
    (hPos : 0 < sr)
    {packets : List Packet}
    (hC : Contiguous sr packets) :
    TimelineKept host sr packets
      (packets.flatMap (Packet.words host)) where
  samples := by
    intro first hFirst p hp j hj
    rcases List.append_of_mem hp with ⟨pre, post, rfl⟩
    have hPre :
        (pre.flatMap (Packet.words host)).length =
          totalSamples pre :=
      length_flatMap_words host hC.append_left.wellFormed
    have hLen := (hC.wellFormed p hp).length_words host
    rw [slot_of_contiguous hPos hC hFirst, ← hPre]
    exact Blocks.getElem?_flatMap_block _ pre p post
      (by rw [hLen]; exact hj)
  fill := by
    intro first hFirst x w hx hFree
    have hLt := (List.getElem?_eq_some_iff.mp hx).1
    rcases Blocks.exists_block_of_lt _ hLt with
      ⟨pre, p, post, j, rfl, hj, hEq⟩
    have hPre :
        (pre.flatMap (Packet.words host)).length =
          totalSamples pre :=
      length_flatMap_words host hC.append_left.wellFormed
    have hLen :=
      (hC.wellFormed p (by simp)).length_words host
    refine (hFree p (by simp) j (by omega) ?_).elim
    rw [slot_of_contiguous hPos hC hFirst, hEq, hPre]

------------------------------------------------------------
-- Silent Packets
------------------------------------------------------------

namespace Packet

/- The same packet with all its samples zero. -/
def zeroed (p : Packet) : Packet :=
  { p with text := zeroText (p.format.getD .i4) }

theorem WellFormed.zeroed
    {p : Packet}
    {k : SampleKind}
    {n : Nat}
    (h : p.WellFormed k n) :
    p.zeroed.WellFormed k n ∧ p.zeroed.text = zeroText k := by
  have hText : p.zeroed.text = zeroText k := by
    simp [Packet.zeroed, h.format]
  refine ⟨⟨?_, h.nsamp, h.few, h.size⟩, hText⟩
  unfold Packet.format Packet.bytePerSample
  rw [hText]
  exact formatOf_zeroText k

theorem zeroed_sameShape
    {p : Packet}
    (hp : p.IsWellFormed) :
    p.SameShape p.zeroed := by
  rcases hp with ⟨k, n, h⟩
  refine ⟨rfl, rfl, rfl, rfl, rfl, ?_⟩
  rw [h.zeroed.1.format, h.format]

/- Every word of the packet is zero. -/
def Silent (host : ByteOrder) (p : Packet) : Prop :=
  ∀ j < p.nsamp.toNat, (p.words host)[j]? = some 0

theorem zeroed_silent
    {p : Packet}
    (hp : p.IsWellFormed)
    (host : ByteOrder) :
    p.zeroed.Silent host := by
  rcases hp with ⟨k, n, h⟩
  rcases h.zeroed with ⟨hZero, hText⟩
  intro j hj
  have hLt : j < n := by
    rw [hZero.nsamp] at hj
    exact hj
  have hData :
      p.zeroed.dataAt (k.width * j) k.width =
        List.replicate k.width 0 := by
    apply List.eq_replicate_iff.mpr
    refine ⟨by simp [dataAt], ?_⟩
    intro b hb
    rcases List.mem_map.mp hb with ⟨i, -, rfl⟩
    rw [hText, zeroText, if_neg (by unfold headerRest; omega),
      if_neg (by unfold headerRest; omega)]
  rw [hZero.words_eq]
  simp [sacwords, hLt, hData, sacword_zero]

end Packet

------------------------------------------------------------
-- The First Break
------------------------------------------------------------

/- Packets behind `b` start after its end. -/
theorem start_of_later
    {sr : ℚ}
    (hPos : 0 < sr)
    {b : Packet}
    {post : List Packet}
    (hRegular : ∀ p ∈ post, p.Regular sr)
    (hApart :
      (b :: post).IsChain
        (fun p q => p.endtime.toRat < q.starttime.toRat)) :
    ∀ p ∈ post, b.endtime.toRat < p.starttime.toRat := by
  induction post generalizing b with
  | nil => simp
  | cons c post ih =>
      have hSplit := List.isChain_cons_cons.mp hApart
      intro p hp
      rcases List.mem_cons.mp hp with rfl | hp
      · exact hSplit.1
      · have hLater :=
          ih (fun q hq => hRegular q (List.mem_cons_of_mem _ hq))
            hSplit.2 p hp
        have hSpan :=
          (hRegular c List.mem_cons_self).start_le_stop hPos
        linarith [hSplit.1]

section Break

variable {sr : ℚ}
variable {pre post : List Packet}
variable {first a b : Packet}

/- The end of a contiguous trace, by its number of samples. -/
theorem stop_of_contiguous
    (hPos : 0 < sr)
    (hC : Contiguous sr (pre ++ [a]))
    (hFirst : first ∈ (pre ++ [a]).head?) :
    (a.endtime.toRat - first.starttime.toRat) * sr =
      totalSamples (pre ++ [a]) - 1 := by
  have ha := hC.regular a (by simp)
  have hStart := hC.start_eq hFirst
  have hNsamp : ((a.nsamp.toNat : Nat) : ℚ) = a.nsamp := by
    have hOne := ha.pos
    exact_mod_cast Int.toNat_of_nonneg (by omega)
  rw [ha.last, hStart, totalSamples_append, totalSamples_cons,
    totalSamples_nil]
  push_cast
  rw [hNsamp]
  field_simp
  ring

/- Packets on the grid start at whole slots. -/
theorem slot_eq_of_whole
    {p : Packet}
    {m : Int}
    (hWhole :
      (p.starttime.toRat - first.starttime.toRat) * sr = m)
    (hNonneg : 0 ≤ m) :
    slot sr first p = m.toNat := by
  apply slot_eq
  rw [hWhole]
  have hNat : ((m.toNat : Nat) : Int) = m :=
    Int.toNat_of_nonneg hNonneg
  exact_mod_cast hNat.symm

/-
  The distance of the packets at a break, in intervals, and
  where the packets behind it belong.
-/
theorem break_distance
    (hPos : 0 < sr)
    (hGrid : OnGrid sr (pre ++ a :: b :: post))
    (hC : Contiguous sr (pre ++ [a]))
    (hBreak : ¬ a.Abuts sr b)
    (hFirst : first ∈ (pre ++ a :: b :: post).head?)
    (hFirst' : first ∈ (pre ++ [a]).head?) :
    ∃ d : Nat,
      2 ≤ d ∧ d ≤ growth + 1 ∧
        (b.starttime.toRat - a.endtime.toRat) * sr = d ∧
        slot sr first b + 1 = totalSamples (pre ++ [a]) + d ∧
        ∀ p ∈ post, slot sr first b < slot sr first p := by
  have hStop := stop_of_contiguous hPos hC hFirst'
  rcases hGrid.whole first hFirst b (by simp) with ⟨m, hm⟩
  have hApart := List.isChain_append_cons_cons.mp hGrid.apart
  have hNear := List.isChain_append_cons_cons.mp hGrid.near
  have hDist :
      (b.starttime.toRat - a.endtime.toRat) * sr =
        m + 1 - totalSamples (pre ++ [a]) := by
    have hSplit :
        (b.starttime.toRat - a.endtime.toRat) * sr =
          (b.starttime.toRat - first.starttime.toRat) * sr -
            (a.endtime.toRat - first.starttime.toRat) * sr := by
      ring
    rw [hSplit, hm, hStop]
    ring
  have hLow : (totalSamples (pre ++ [a]) : Int) < m + 1 := by
    have hGap : 0 < (b.starttime.toRat - a.endtime.toRat) * sr :=
      mul_pos (by linarith [hApart.2.1]) hPos
    rw [hDist] at hGap
    have hLt : (totalSamples (pre ++ [a]) : ℚ) < m + 1 := by
      linarith
    exact_mod_cast hLt
  have hNe : (totalSamples (pre ++ [a]) : Int) ≠ m := by
    intro hEq
    apply hBreak
    have hOne : (b.starttime.toRat - a.endtime.toRat) * sr = 1 := by
      rw [hDist, ← hEq]
      push_cast
      ring
    unfold Packet.Abuts
    field_simp
    linarith
  have hHigh :
      m ≤ totalSamples (pre ++ [a]) + (growth : Int) := by
    have hLe := hNear.2.1
    rw [hDist] at hLe
    have hLe' :
        (m : ℚ) ≤ totalSamples (pre ++ [a]) + growth := by
      linarith
    exact_mod_cast hLe'
  have hSlot : slot sr first b = m.toNat :=
    slot_eq_of_whole hm (by omega)
  refine
    ⟨(m + 1 - totalSamples (pre ++ [a])).toNat, by omega, by omega,
      ?_, by omega, ?_⟩
  · have hNat :
        (((m + 1 - totalSamples (pre ++ [a])).toNat : Nat) : Int) =
          m + 1 - totalSamples (pre ++ [a]) :=
      Int.toNat_of_nonneg (by omega)
    rw [hDist]
    exact_mod_cast hNat.symm
  · intro p hp
    have hReg : ∀ q ∈ b :: post, q.Regular sr := by
      intro q hq
      exact hGrid.regular q (by simp [List.mem_cons.mp hq])
    have hLater :=
      start_of_later hPos
        (fun q hq => hReg q (List.mem_cons_of_mem _ hq))
        hApart.2.2 p hp
    have hSpan := (hReg b List.mem_cons_self).start_le_stop hPos
    rcases hGrid.whole first hFirst p (by simp [hp]) with
      ⟨m', hm'⟩
    have hLt : (m : ℚ) < m' := by
      rw [← hm, ← hm']
      exact mul_lt_mul_of_pos_right (by linarith) hPos
    have hLt' : m < m' := by
      exact_mod_cast hLt
    have hSlot' : slot sr first p = m'.toNat :=
      slot_eq_of_whole hm' (by omega)
    omega

/- Samples before the break lie before its index. -/
theorem slot_before_break
    (hPos : 0 < sr)
    (hC : Contiguous sr (pre ++ [a]))
    (hFirst : first ∈ (pre ++ [a]).head?)
    {p : Packet}
    (hp : p ∈ pre ++ [a])
    {j : Nat}
    (hj : j < p.nsamp.toNat) :
    slot sr first p + j < totalSamples (pre ++ [a]) := by
  rcases List.append_of_mem hp with ⟨l, r, hEq⟩
  rw [hEq] at hC hFirst ⊢
  rw [slot_of_contiguous hPos hC hFirst, totalSamples_append,
    totalSamples_cons]
  omega

end Break

------------------------------------------------------------
-- The Packet Behind The Break
------------------------------------------------------------

/- More room than a gap of the grid needs, after one growth. -/
structure SacState.Spacious (s : SacState) : Prop where
  room : s.words.length < s.capacity
  grown : growth ≤ s.capacity

/- Slots as the scan makes them, doubling from 4096. -/
def TraceNode.Doubled (n : TraceNode) : Prop :=
  ∃ k ≤ 19, n.maxtbuf = maxNumTbuf * 2 ^ k

theorem sacInit_capacity
    (now : Int)
    {n : TraceNode}
    (hSlots : n.Doubled) :
    (sacInit now n).capacity = 0 ∨
      growth ≤ (sacInit now n).capacity := by
  rcases hSlots with ⟨k, hk, hEq⟩
  have hAll :
      ∀ k ≤ 19,
        maxNumTbuf * 2 ^ k * 100 % 2 ^ 32 = 0 ∨
          growth ≤ maxNumTbuf * 2 ^ k * 100 % 2 ^ 32 := by
    decide
  simp only [sacInit, hEq]
  exact hAll k hk

/- A stored packet leaves room. -/
theorem spacious_step
    {host : ByteOrder}
    {sr : ℚ}
    {s s' : SacState}
    {p : Packet}
    (hp : p.Regular sr)
    (hFits : s.Fits)
    (hCapacity : s.capacity = 0 ∨ growth ≤ s.capacity)
    (hPlain : 0 < s.i → ¬ GapBefore s p ∧ ¬ Duplicated s p)
    (hBody : sacBody host s p = some s') :
    s'.Spacious := by
  rcases hp.wellFormed with ⟨k, n, h⟩
  have hLen : (p.words host).length = n := h.length_words host
  have hOne := hp.pos
  have hNsamp := h.nsamp
  rcases sacBody_plain_cases h hFits hPlain hBody with
    ⟨header, capacity, rfl, hRoom, hGrown⟩
  constructor
  · simp only [advance, List.length_append, hLen]
    exact hRoom
  · simp only [advance]
    omega

/- The state after a contiguous trace that is not empty. -/
theorem spacious_of_run
    {host : ByteOrder}
    {now : Int}
    {n : TraceNode}
    (hSlots : n.Doubled)
    {sr : ℚ}
    (hPos : 0 < sr)
    {packets : List Packet}
    (hNe : packets ≠ [])
    (hC : Contiguous sr packets)
    {s : SacState}
    (hRun :
      packets.foldlM (sacBody host) (sacInit now n) = some s) :
    s.Spacious := by
  have hBoth :
      Gathered host packets s ∧
        (s.capacity = 0 ∨ growth ≤ s.capacity) ∧
        (packets ≠ [] → s.Spacious) := by
    apply
      ForLoop.foldlM_prefix_of_some
        (fun pre s =>
          Gathered host pre s ∧
            (s.capacity = 0 ∨ growth ≤ s.capacity) ∧
            (pre ≠ [] → s.Spacious))
        packets _ _ hRun
    · exact ⟨gathered_init host now n, sacInit_capacity now hSlots,
        fun hNil => (hNil rfl).elim⟩
    · rintro pre p post t t' hSplit ⟨hGathered, hCapacity, -⟩ hBody
      have hC' : Contiguous sr (pre ++ p :: post) := hSplit ▸ hC
      have hp := hC'.regular p (by simp)
      have hPlain := plain_of_contiguous hPos hC' hGathered
      have hSpacious :=
        spacious_step hp hGathered.fits hCapacity hPlain hBody
      exact ⟨gathered_step hp.wellFormed hGathered hPlain hBody,
        Or.inr hSpacious.grown, fun _ => hSpacious⟩
  exact hBoth.2.2 hNe

section Behind

variable {host : ByteOrder}
variable {sr : ℚ}
variable {s s' : SacState}
variable {b : Packet}
variable {d : Nat}

/- One missing sample: the packet follows as if none were. -/
theorem words_behind_two
    (hPos : 0 < sr)
    (hb : b.Regular sr)
    (hEnd : s.endtime.IsFinite)
    (hFits : s.Fits)
    (hDist : (b.starttime.toRat - s.endtime.toRat) * sr = 2)
    (hBody : sacBody host s b = some s') :
    s'.words = s.words ++ b.words host := by
  have hSpan := hb.start_le_stop hPos
  have hStart :
      b.starttime.toRat = s.endtime.toRat + 2 / sr := by
    field_simp
    linarith
  have hLess : 1 / sr < 2 / sr :=
    div_lt_div_of_pos_right (by norm_num) hPos
  have hPlain : 0 < s.i → ¬ GapBefore s b ∧ ¬ Duplicated s b := by
    intro _
    constructor
    · rw [gapBefore_iff hPos hEnd hb.timed]
      linarith
    · rw [duplicated_iff hPos hEnd hb.timed]
      linarith
  have hStores := sacBody_stores hb.wellFormed hFits hPlain hBody
  exact hStores.words

/- So a sample stands at the index of the missing one. -/
theorem sample_behind_two
    (hPos : 0 < sr)
    (hb : b.Regular sr)
    (hSilent : b.Silent host)
    (hEnd : s.endtime.IsFinite)
    (hFits : s.Fits)
    (hDist : (b.starttime.toRat - s.endtime.toRat) * sr = 2)
    (hBody : sacBody host s b = some s') :
    s'.words[s.words.length]? = some 0 := by
  have hOne := hb.pos
  rw [words_behind_two hPos hb hEnd hFits hDist hBody,
    List.getElem?_append_right le_rfl, Nat.sub_self]
  exact hSilent 0 (by omega)

/- The fill is the distance, that is one word too many. -/
theorem nfill_eq_of_distance
    (hb : b.Regular sr)
    (hEnd : s.endtime.IsFinite)
    (hDist : (b.starttime.toRat - s.endtime.toRat) * sr = d)
    (hNear : d ≤ growth + 1) :
    nfill s b = d := by
  have hGrowth : growth = 204800 := rfl
  have hSub := ExtRat.sub_finite hb.start hEnd
  have hMul :=
    ExtRat.mul_finite (ExtRat.isFinite_fin sr) hSub.1
  unfold nfill
  rw [hb.samprate]
  apply ExtRat.truncTo_of_eq hMul.1
  · rw [hMul.2, hSub.2, ExtRat.toRat_fin, mul_comm]
    exact_mod_cast hDist
  · omega
  · omega

/- More missing samples: they are filled, and one more. -/
theorem words_behind_gap
    (hPos : 0 < sr)
    (hb : b.Regular sr)
    (hEnd : s.endtime.IsFinite)
    (hNext : 0 < s.i)
    (hCounted : s.Counted)
    (hSpacious : s.Spacious)
    (hDist : (b.starttime.toRat - s.endtime.toRat) * sr = d)
    (hMany : 3 ≤ d)
    (hNear : d ≤ growth + 1)
    (hFew : s.words.length + d < 2 ^ 31)
    (hBody : sacBody host s b = some s') :
    s'.words =
      s.words ++ List.replicate d sacUndef ++ b.words host := by
  have hStart :
      b.starttime.toRat = s.endtime.toRat + d / sr := by
    field_simp
    linarith
  have hMany' : (3 : ℚ) ≤ d := by
    exact_mod_cast hMany
  have hLess : 2 / sr < d / sr :=
    div_lt_div_of_pos_right (by linarith) hPos
  have hGap : GapBefore s b := by
    rw [gapBefore_iff hPos hEnd hb.timed]
    linarith
  have hFill := nfill_eq_of_distance hb hEnd hDist hNear
  have hCount := hCounted.count
  have hRoom := hSpacious.room
  have hGrown := hSpacious.grown
  have hInt : s.nsampTrace + (d : Int) < 2 ^ 31 := by omega
  have hSize :
      (newsize s d : Int) =
        (s.nsampTrace + d) * 4 + sacHeaderSize :=
    newsize_eq (by omega) hInt
  have hBogus : ¬ Bogus s (nfill s b) := by
    rw [hFill]
    unfold Bogus SacState.buffersiz
    omega
  have hC : SacState.Counted { s with samprate := b.samprate } :=
    ⟨hCounted.count, hCounted.int, hCounted.room⟩
  have hSome :
      ∃ r,
        roomForGap (nfill s b)
          { s with samprate := b.samprate } = some r :=
    ⟨_, roomForGap_eq hC (nfill s b)⟩
  rcases hSome with ⟨r, hRoomFor⟩
  have hSame := roomForGap_same hC hRoomFor
  have hEnough : (d : Int) ≤ r.room := by
    rw [hFill] at hRoomFor
    apply (roomForGap_enough_iff hC hRoomFor (by omega) hInt).mpr
    change newsize s d ≤ s.buffersiz + growth * 4
    unfold SacState.buffersiz
    omega
  have hFilled :
      (fillGap d r).words =
        s.words ++ List.replicate d sacUndef := by
    have hMin : min (d : Int).toNat r.room = d := by omega
    simp only [fillGap, hMin]
    rw [hSame.2.1]
  rcases hb.wellFormed with ⟨k, n, h⟩
  have hBranch :
      nextPacket host b { s with samprate := b.samprate } =
        storePacket host b (fillGap (nfill s b) r) :=
    nextPacket_gap host hGap hBogus hRoomFor
  rw [sacBody_next host b hNext, hBranch, hFill] at hBody
  rcases Option.map_eq_some_iff.mp hBody with ⟨t, hStore, rfl⟩
  rcases storePacket_cases h (fillGap_fits d hSame.2.2) hStore with
    ⟨capacity, rfl, -, -⟩
  simp only [advance, hFilled]

/- So a fill word stands at the index of the first sample. -/
theorem undef_behind_gap
    (hPos : 0 < sr)
    (hb : b.Regular sr)
    (hEnd : s.endtime.IsFinite)
    (hNext : 0 < s.i)
    (hCounted : s.Counted)
    (hSpacious : s.Spacious)
    (hDist : (b.starttime.toRat - s.endtime.toRat) * sr = d)
    (hMany : 3 ≤ d)
    (hNear : d ≤ growth + 1)
    (hFew : s.words.length + d < 2 ^ 31)
    (hBody : sacBody host s b = some s')
    {x : Nat}
    (hLow : s.words.length ≤ x)
    (hHigh : x < s.words.length + d) :
    s'.words[x]? = some sacUndef := by
  have hBehind :=
    words_behind_gap hPos hb hEnd hNext hCounted hSpacious hDist
      hMany hNear hFew hBody
  rw [hBehind, List.append_assoc,
    List.getElem?_append_right hLow,
    List.getElem?_append_left
      (by rw [List.length_replicate]; omega),
    List.getElem?_replicate_of_lt (by omega)]

end Behind

------------------------------------------------------------
-- A Break Is Seen
------------------------------------------------------------

/- Words of one list stand in any longer one. -/
theorem getElem?_of_prefixes
    {α : Type}
    {xs ys zs : List α}
    (hXs : xs <+: zs)
    (hYs : ys <+: zs)
    {x : Nat}
    (hLtX : x < xs.length)
    (hLtY : x < ys.length) :
    xs[x]? = ys[x]? := by
  rcases hXs with ⟨us, rfl⟩
  rcases hYs with ⟨vs, hEq⟩
  have hX : (xs ++ us)[x]? = xs[x]? :=
    List.getElem?_append_left hLtX
  have hY : (ys ++ vs)[x]? = ys[x]? :=
    List.getElem?_append_left hLtY
  rw [← hX, ← hY, hEq]

theorem words_extend
    {host : ByteOrder}
    {packets : List Packet}
    {s s' : SacState}
    (hRun : packets.foldlM (sacBody host) s = some s') :
    s.words <+: s'.words := by
  apply ForLoop.foldlM_mono (R := fun s t => s.words <+: t.words)
    _ _ _ hRun
  · intro t
    exact List.prefix_rfl
  · intro t u v hTu hUv
    exact List.IsPrefix.trans hTu hUv
  · intro t p u hStep
    exact sacBody_extends hStep

/- A file, and the states before and after one packet. -/
theorem states_of_output
    {host : ByteOrder}
    {now : Int}
    {outpath : List UInt8}
    {n : TraceNode}
    {pre post : List Packet}
    {b : Packet}
    {f : SacFile}
    (hOutput :
      sacprocTraceOutput host now outpath n (pre ++ b :: post) =
        some f) :
    ∃ s s' t,
      pre.foldlM (sacBody host) (sacInit now n) = some s ∧
        sacBody host s b = some s' ∧
        s'.words <+: t ∧ f.data <+: t ∧
        f.data.length < 2 ^ 31 := by
  rcases exists_run_of_output hOutput with ⟨t, hRun, hFinish⟩
  rcases ForLoop.foldlM_append_eq_some.mp hRun with
    ⟨s, hPre, hPost⟩
  rcases ForLoop.foldlM_cons_eq_some.mp hPost with
    ⟨s', hBody, hRest⟩
  have hMore := words_extend hRest
  have hData := sacFinish_data hFinish
  exact ⟨s, s', t.words, hPre, hBody, hMore, hData.1, hData.2⟩

/-
  Where a silent trace has a gap, either a sample stands at
  the index of the missing one, or a fill word at the index
  of a sample.
-/
theorem not_kept_of_break
    (host : ByteOrder)
    (now : Int)
    (outpath : List UInt8)
    {n : TraceNode}
    (hSlots : n.Doubled)
    {sr : ℚ}
    (hPos : 0 < sr)
    {packets : List Packet}
    (hGrid : OnGrid sr packets)
    (hSilent : ∀ p ∈ packets, p.Silent host)
    (hBreak : ¬ packets.IsChain (Packet.Abuts sr)) :
    ¬ OutputKeeps host sr packets
      (sacprocTraceOutput host now outpath n packets) := by
  rintro ⟨f, hOutput, hKept⟩
  rcases Blocks.exists_first_break hBreak with
    ⟨pre, a, b, post, rfl, hChain, hab⟩
  have hSplit :
      pre ++ a :: b :: post = (pre ++ [a]) ++ b :: post := by
    simp
  have hC : Contiguous sr (pre ++ [a]) := by
    refine ⟨?_, hChain⟩
    intro p hp
    apply hGrid.regular
    rw [hSplit]
    exact List.mem_append_left _ hp
  cases hHead : (pre ++ [a]).head? with
  | none => simp at hHead
  | some first =>
      have hFirst' : first ∈ (pre ++ [a]).head? := hHead
      have hFirst : first ∈ (pre ++ a :: b :: post).head? := by
        rw [hSplit, List.head?_append, hHead]
        rfl
      rcases break_distance hPos hGrid hC hab hFirst hFirst' with
        ⟨d, hTwo, hNear, hDist, hSlot, hLater⟩
      have hb : b.Regular sr := hGrid.regular b (by simp)
      have hOne := hb.pos
      have hOutput' := hOutput
      rw [hSplit] at hOutput'
      rcases states_of_output hOutput' with
        ⟨s, s', t, hRun, hBody, hWords, hData, hInt⟩
      have hGathered := gathered_of_contiguous hPos hC hRun
      have hSpacious :=
        spacious_of_run hSlots hPos (by simp) hC hRun
      have hLen : s.words.length = totalSamples (pre ++ [a]) := by
        rw [hGathered.words]
        exact length_flatMap_words host hC.wellFormed
      have hEndtime : s.endtime = a.endtime :=
        hGathered.endtime a (by simp)
      have hEnd : s.endtime.IsFinite :=
        hEndtime ▸ (hC.regular a (by simp)).stop
      have hDist' :
          (b.starttime.toRat - s.endtime.toRat) * sr = d := by
        rw [hEndtime]
        exact hDist
      -- The first sample of `b` must be within the data.
      have hSample :
          f.data[slot sr first b]? = some 0 := by
        have hAt := hKept.samples first hFirst b (by simp) 0
          (by omega)
        rw [hSilent b (by simp) 0 (by omega)] at hAt
        exact hAt
      have hReach := (List.getElem?_eq_some_iff.mp hSample).1
      by_cases hTwo' : d = 2
      · -- One sample is missing: its index holds a sample.
        subst hTwo'
        have hZero :=
          sample_behind_two hPos hb (hSilent b (by simp)) hEnd
            hGathered.fits hDist' hBody
        have hLt := (List.getElem?_eq_some_iff.mp hZero).1
        have hAt : f.data[s.words.length]? = some 0 := by
          rw [getElem?_of_prefixes hData hWords (by omega) hLt,
            hZero]
        have hFill :=
          hKept.fill first hFirst s.words.length 0 hAt (by
            intro p hp j hj
            rw [hSplit] at hp
            rcases List.mem_append.mp hp with hp | hp
            · have hBefore :=
                slot_before_break hPos hC hFirst' hp hj
              omega
            · rcases List.mem_cons.mp hp with rfl | hp
              · omega
              · have hAfter := hLater p hp
                omega)
        exact absurd hFill (by decide)
      · -- The last fill word stands at the index of a sample.
        have hCounted : s.Counted := by
          apply hGathered.fits.counted
          · rw [hGathered.count]
            exact wrap32_of_mem (by omega) (by omega)
          · rw [hGathered.count]
            exact wrap32_upper _
        have hNext : 0 < s.i := by
          rw [hGathered.i]
          simp
        have hUndef :
            s'.words[slot sr first b]? = some sacUndef :=
          undef_behind_gap hPos hb hEnd hNext hCounted hSpacious
            hDist' (by omega) hNear (by omega) hBody (by omega)
            (by omega)
        have hLt := (List.getElem?_eq_some_iff.mp hUndef).1
        rw [getElem?_of_prefixes hData hWords hReach hLt,
          hUndef] at hSample
        exact absurd (Option.some.inj hSample) (by decide)

------------------------------------------------------------
-- The Exact Condition
------------------------------------------------------------

theorem OnGrid.of_sameShape
    {sr : ℚ}
    {ps qs : List Packet}
    (hSame : List.Forall₂ Packet.SameShape ps qs)
    (hGrid : OnGrid sr ps) :
    OnGrid sr qs where
  regular := regular_of_sameShape hSame hGrid.regular
  whole := by
    intro first hFirst q hq
    cases hSame with
    | nil => simp at hFirst
    | @cons p₀ q₀ ps qs hHead hRest =>
        obtain rfl : q₀ = first := by simpa using hFirst
        have hAll : List.Forall₂ Packet.SameShape
            (p₀ :: ps) (q₀ :: qs) := .cons hHead hRest
        rcases List.mem_iff_getElem.mp hq with ⟨i, hi, rfl⟩
        have hi' : i < (p₀ :: ps).length := by
          rw [hAll.length_eq]
          exact hi
        have hAt := List.Forall₂.get hAll hi' hi
        rcases hGrid.whole p₀ rfl _ (List.getElem_mem hi') with
          ⟨m, hm⟩
        refine ⟨m, ?_⟩
        rw [← hHead.starttime]
        simp only [List.get_eq_getElem] at hAt
        rw [← hAt.starttime]
        exact hm
  apart := by
    apply Blocks.isChain_of_forall₂ _ hSame hGrid.apart
    intro a b c d hac hbd hApart
    rw [← hac.endtime, ← hbd.starttime]
    exact hApart
  near := by
    apply Blocks.isChain_of_forall₂ _ hSame hGrid.near
    intro a b c d hac hbd hNear
    rw [← hac.endtime, ← hbd.starttime]
    exact hNear

theorem zeroed_forall₂
    {packets : List Packet}
    (hWell : ∀ p ∈ packets, p.IsWellFormed) :
    List.Forall₂ Packet.SameShape packets
      (packets.map Packet.zeroed) := by
  rw [List.forall₂_map_right_iff, List.forall₂_same]
  intro p hp
  exact Packet.zeroed_sameShape (hWell p hp)

/-
  Whatever the sample values, the time line is kept: this
  holds for the traces without a single missing sample whose
  samples an `int` can count, and for no others.
-/
theorem timeline_kept_iff
    (host : ByteOrder)
    (now : Int)
    (outpath : List UInt8)
    {n : TraceNode}
    (hSlots : n.Doubled)
    {sr : ℚ}
    (hPos : 0 < sr)
    {packets : List Packet}
    (hGrid : OnGrid sr packets) :
    (∀ qs, List.Forall₂ Packet.SameShape packets qs →
        OutputKeeps host sr qs
          (sacprocTraceOutput host now outpath n qs)) ↔
      packets.IsChain (Packet.Abuts sr) ∧
        totalSamples packets < 2 ^ 31 := by
  have hWell : ∀ p ∈ packets, p.IsWellFormed :=
    fun p hp => (hGrid.regular p hp).wellFormed
  constructor
  · intro hAll
    have hZeroed := zeroed_forall₂ hWell
    have hKeeps := hAll _ hZeroed
    have hGrid' := hGrid.of_sameShape hZeroed
    have hChain :
        (packets.map Packet.zeroed).IsChain
          (Packet.Abuts sr) := by
      by_contra hBreak
      apply not_kept_of_break host now outpath hSlots hPos hGrid'
        _ hBreak hKeeps
      intro q hq
      rcases List.mem_map.mp hq with ⟨p, hp, rfl⟩
      exact Packet.zeroed_silent (hWell p hp) host
    refine ⟨(List.isChain_map Packet.zeroed).mp hChain, ?_⟩
    by_contra hLong
    rw [not_lt, totalSamples_sameShape hZeroed] at hLong
    rcases hKeeps with ⟨f, hOutput, -⟩
    rw [output_of_long host now outpath n hPos
      ⟨hGrid'.regular, hChain⟩ hLong] at hOutput
    cases hOutput
  · rintro ⟨hChain, hFew⟩ qs hSame
    have hC : Contiguous sr qs :=
      Contiguous.of_sameShape hSame ⟨hGrid.regular, hChain⟩
    rw [totalSamples_sameShape hSame] at hFew
    rcases output_of_contiguous host now outpath n hPos hC hFew with
      ⟨f, hOutput, -, hData⟩
    refine ⟨f, hOutput, ?_⟩
    rw [hData]
    exact kept_of_contiguous hPos hC

theorem freshNode_doubled : freshNode.Doubled :=
  ⟨0, by decide, rfl⟩

/- Samples at second 0 and at second `t`. -/
theorem pair_onGrid
    {t : Nat}
    (hLow : 1 ≤ t)
    (hHigh : t ≤ 204801) :
    OnGrid 1 [Packet.single 0, Packet.single t] where
  regular := by
    intro p hp
    rcases List.mem_pair.mp hp with rfl | rfl
    · exact single_regular 0
    · exact single_regular t
  whole := by
    intro first hFirst p hp
    obtain rfl : Packet.single 0 = first := by simpa using hFirst
    rcases List.mem_pair.mp hp with rfl | rfl
    · exact ⟨0, by simp [Packet.single]⟩
    · exact ⟨t, by simp [Packet.single]⟩
  apart := by
    have hLow' : (1 : ℚ) ≤ t := by
      exact_mod_cast hLow
    simp only [List.isChain_pair, Packet.single,
      ExtRat.toRat_ofInt]
    push_cast
    linarith
  near := by
    have hHigh' : (t : ℚ) ≤ 204801 := by
      exact_mod_cast hHigh
    have hGrowth : (growth : ℚ) = 204800 := by
      norm_num [growth, maxNumTbuf]
    simp only [List.isChain_pair, Packet.single,
      ExtRat.toRat_ofInt, hGrowth]
    push_cast
    linarith

theorem single_silent
    (host : ByteOrder)
    (t : Int) :
    (Packet.single t).Silent host := by
  have hWell := Packet.single_wellFormed t
  have hZero : (Packet.single t).zeroed = Packet.single t := by
    unfold Packet.zeroed
    rw [hWell.format]
    rfl
  rw [← hZero]
  exact Packet.zeroed_silent ⟨.i4, 1, hWell⟩ host

/- Two samples that follow each other. -/
theorem timeline_kept_pair :
    (∀ qs,
        List.Forall₂ Packet.SameShape
          [Packet.single 0, Packet.single (1 : Nat)] qs →
        OutputKeeps .little 1 qs
          (sacprocTraceOutput .little 0 [] freshNode qs)) ↔
      [Packet.single 0, Packet.single (1 : Nat)].IsChain
          (Packet.Abuts 1) ∧
        totalSamples [Packet.single 0, Packet.single (1 : Nat)] <
          2 ^ 31 :=
  timeline_kept_iff .little 0 [] freshNode_doubled one_pos
    (pair_onGrid le_rfl (by norm_num))

/- One sample missing between two. -/
theorem pair_with_gap_not_kept :
    OnGrid 1 [Packet.single 0, Packet.single (2 : Nat)] ∧
      ¬ OutputKeeps .little 1
        [Packet.single 0, Packet.single (2 : Nat)]
        (sacprocTraceOutput .little 0 [] freshNode
          [Packet.single 0, Packet.single (2 : Nat)]) := by
  have hGrid :=
    pair_onGrid (t := 2) (by norm_num) (by norm_num)
  refine ⟨hGrid, ?_⟩
  apply not_kept_of_break .little 0 [] freshNode_doubled one_pos
    hGrid
  · intro p hp
    rcases List.mem_pair.mp hp with rfl | rfl
    · exact single_silent .little 0
    · exact single_silent .little (2 : Nat)
  · simp [Packet.Abuts, Packet.single]

end TankConvertor
