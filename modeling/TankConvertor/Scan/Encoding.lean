import TankConvertor.Scan.Model
import TankConvertor.Swap.Correctness

/-
  Well-formed tracebufs as logical records, their encodings
  in either byte order, and what the byte-order routine makes
  of an encoding.

  Key definitions include:
    * `Code`
    * `Tracebuf`
    * `Tracebuf.encode`
    * `Tracebuf.Holds`

  Key theorems include:
    * `Tracebuf.holdsAt_encode_iff`
    * `Tracebuf.not_inconsistent`
    * `swapWavemsg2Makelocal_encode`
-/

------------------------------------------------------------
-- The Width Of A Sample
------------------------------------------------------------

namespace TankConvertor

open Trace2Header ByteMem

/- A known digit is followed by the end of the text. -/
theorem bytePerSample_of_digit
    {m : ByteMem}
    {p : Int}
    {k : SampleKind}
    (hDigit : m (p + 58) = k.digit)
    (hNul : m (p + 59) = 0) :
    bytePerSample m p = k.width := by
  have hNul' : m (p + 58 + 1) = 0 := by
    rw [add_assoc]
    exact hNul
  unfold bytePerSample
  rw [read_succ, read_succ, hDigit, hNul',
    atoi_of_digit _ (by cases k <;> rfl) rfl]
  cases k <;> rfl

------------------------------------------------------------
-- Logical Tracebufs
------------------------------------------------------------

/- A code field of `n` bytes that holds its terminator. -/
structure Code (n : Nat) where
  bytes : List UInt8
  length_eq : bytes.length = n
  nul_mem : (0 : UInt8) ∈ bytes
deriving DecidableEq

/-
  A well-formed tracebuf.  Times and the rate are the bits of
  finite doubles, samples the bits of numbers of the kind;
  the end time is within five sample intervals of the one
  that is computed from the start time.
-/
structure Tracebuf [Rounding] where
  pinno : UInt32
  starttime : UInt64
  endtime : UInt64
  samprate : UInt64
  sta : Code 7
  net : Code 9
  chan : Code 4
  loc : Code 3
  version0 : UInt8
  version1 : UInt8
  kind : SampleKind
  last : UInt32
  samples : List Nat
  starttime_finite :
    (ExtRat.ofBits64 starttime.toNat).IsFinite
  endtime_finite : (ExtRat.ofBits64 endtime.toNat).IsFinite
  samprate_finite : (ExtRat.ofBits64 samprate.toNat).IsFinite
  samprate_pos : 0 < (ExtRat.ofBits64 samprate.toNat).toRat
  few : samples.length ≤ kind.capacity
  sample_lt : ∀ x ∈ samples, x < 256 ^ kind.width
  consistent :
    ¬ EndtimeOff samples.length
        (.ofBits64 starttime.toNat) (.ofBits64 endtime.toNat)
        (.ofBits64 samprate.toNat)
deriving DecidableEq

namespace Tracebuf

/- A version 21 message ends its header in a number. -/
def IsV21 [Rounding] (t : Tracebuf) : Prop :=
  t.version0 = ch '2' ∧ t.version1 = ch '1'

instance [Rounding] (t : Tracebuf) : Decidable t.IsV21 := by
  unfold IsV21
  infer_instance

/- The last four bytes of the header. -/
def lastBytes [Rounding] (o : ByteOrder) (t : Tracebuf) : List UInt8 :=
  if t.IsV21 then o.bytes 4 t.last.toNat
  else leBytes 4 t.last.toNat

/- The header, its numbers in a given order. -/
def header [Rounding] (o : ByteOrder) (t : Tracebuf) : List UInt8 :=
  o.bytes 4 t.pinno.toNat ++
    (o.bytes 4 t.samples.length ++
      (o.bytes 8 t.starttime.toNat ++
        (o.bytes 8 t.endtime.toNat ++
          (o.bytes 8 t.samprate.toNat ++
            (t.sta.bytes ++
              (t.net.bytes ++
                (t.chan.bytes ++
                  (t.loc.bytes ++
                    ([t.version0, t.version1,
                      t.kind.letter o, t.kind.digit, 0] ++
                      t.lastBytes o)))))))))

/- The message, header and samples. -/
def encode [Rounding] (o : ByteOrder) (t : Tracebuf) : List UInt8 :=
  t.header o ++ t.samples.flatMap (o.bytes t.kind.width)

/- Bytes of the message. -/
def size [Rounding] (t : Tracebuf) : Nat :=
  sizeofTrace2Header + t.kind.width * t.samples.length

theorem length_lastBytes
    [Rounding]
    (o : ByteOrder)
    (t : Tracebuf) :
    (t.lastBytes o).length = 4 := by
  unfold lastBytes
  split <;> simp

theorem length_header
    [Rounding]
    (o : ByteOrder)
    (t : Tracebuf) :
    (t.header o).length = 64 := by
  simp only [header, List.length_append,
    ByteOrder.length_bytes, t.sta.length_eq, t.net.length_eq,
    t.chan.length_eq, t.loc.length_eq, length_lastBytes,
    List.length_cons, List.length_nil]

@[simp] theorem length_encode
    [Rounding]
    (o : ByteOrder)
    (t : Tracebuf) :
    (t.encode o).length = t.size := by
  unfold encode size sizeofTrace2Header
  rw [List.length_append, length_header,
    ByteOrder.length_flatMap_bytes]

theorem size_le
    [Rounding]
    (t : Tracebuf) :
    t.size ≤ maxTracebufSiz :=
  SampleKind.size_le t.few

/- Field by field, what it is to find a message in memory. -/
structure Holds
    [Rounding]
    (m : ByteMem)
    (p : Int)
    (o : ByteOrder)
    (t : Tracebuf) : Prop where
  pinno : m.read p 4 = o.bytes 4 t.pinno.toNat
  nsamp : m.read (p + 4) 4 = o.bytes 4 t.samples.length
  starttime :
    m.read (p + 8) 8 = o.bytes 8 t.starttime.toNat
  endtime : m.read (p + 16) 8 = o.bytes 8 t.endtime.toNat
  samprate : m.read (p + 24) 8 = o.bytes 8 t.samprate.toNat
  sta : m.read (p + 32) 7 = t.sta.bytes
  net : m.read (p + 39) 9 = t.net.bytes
  chan : m.read (p + 48) 4 = t.chan.bytes
  loc : m.read (p + 52) 3 = t.loc.bytes
  version0 : m (p + 55) = t.version0
  version1 : m (p + 56) = t.version1
  letter : m (p + 57) = t.kind.letter o
  digit : m (p + 58) = t.kind.digit
  nul : m (p + 59) = 0
  last : m.read (p + 60) 4 = t.lastBytes o
  samples :
    ∀ j (hj : j < t.samples.length),
      m.read (p + 64 + j * t.kind.width) t.kind.width =
        o.bytes t.kind.width t.samples[j]

theorem holdsAt_encode_iff
    [Rounding]
    {m : ByteMem}
    {p : Int}
    {o : ByteOrder}
    {t : Tracebuf} :
    m.HoldsAt p (t.encode o) ↔ t.Holds m p o := by
  have hWords :
      m.HoldsAt (p + 64)
          (t.samples.flatMap (o.bytes t.kind.width)) ↔
        ∀ j (hj : j < t.samples.length),
          m.read (p + 64 + j * t.kind.width) t.kind.width =
            o.bytes t.kind.width t.samples[j] :=
    holdsAt_flatMap (fun x => ByteOrder.length_bytes o _ x)
  unfold encode
  rw [holdsAt_append, length_header, Nat.cast_ofNat, hWords]
  unfold header
  simp only [holdsAt_append, holdsAt_cons, holdsAt_nil,
    ByteOrder.length_bytes, t.sta.length_eq, t.net.length_eq,
    t.chan.length_eq, t.loc.length_eq, List.length_cons,
    List.length_nil]
  simp only [HoldsAt, ByteOrder.length_bytes, t.sta.length_eq,
    t.net.length_eq, t.chan.length_eq, t.loc.length_eq,
    length_lastBytes, add_assoc]
  norm_num
  constructor
  · rintro ⟨⟨h₁, h₂, h₃, h₄, h₅, h₆, h₇, h₈, h₉,
      ⟨h₁₀, h₁₁, h₁₂, h₁₃, h₁₄⟩, h₁₅⟩, h₁₆⟩
    exact ⟨h₁, h₂, h₃, h₄, h₅, h₆, h₇, h₈, h₉, h₁₀, h₁₁, h₁₂,
      h₁₃, h₁₄, h₁₅, by simpa [add_assoc] using h₁₆⟩
  · intro h
    exact ⟨⟨h.pinno, h.nsamp, h.starttime, h.endtime,
      h.samprate, h.sta, h.net, h.chan, h.loc,
      ⟨h.version0, h.version1, h.letter, h.digit, h.nul⟩,
      h.last⟩, by simpa [add_assoc] using h.samples⟩

------------------------------------------------------------
-- What The Scan Reads Of An Encoding
------------------------------------------------------------

section Read

variable [Rounding]
variable {m : ByteMem} {p : Int} {o : ByteOrder} {t : Tracebuf}

theorem Holds.kindOf_eq
    (h : t.Holds m p o) :
    kindOf (datatype0 m p) (datatype1 m p) =
      some (o, t.kind) :=
  kindOf_datatype h.letter h.digit

theorem length_samples_lt
    (t : Tracebuf) :
    t.samples.length < 2 ^ 31 := by
  have hFew := t.few
  have hCap := t.kind.capacity_le
  omega

theorem Holds.nsamp_eq
    (h : t.Holds m p o) :
    Trace2Header.nsamp o m p = t.samples.length := by
  have hLt := t.length_samples_lt
  unfold Trace2Header.nsamp
  rw [h.nsamp, ByteOrder.value_bytes]
  · exact wrap32_of_mem (by omega) (by omega)
  · omega

theorem Holds.starttime_eq
    (h : t.Holds m p o) :
    Trace2Header.starttime o m p =
      .ofBits64 t.starttime.toNat := by
  unfold Trace2Header.starttime
  rw [h.starttime, ByteOrder.value_bytes]
  exact t.starttime.toNat_lt

theorem Holds.endtime_eq
    (h : t.Holds m p o) :
    Trace2Header.endtime o m p =
      .ofBits64 t.endtime.toNat := by
  unfold Trace2Header.endtime
  rw [h.endtime, ByteOrder.value_bytes]
  exact t.endtime.toNat_lt

theorem Holds.samprate_eq
    (h : t.Holds m p o) :
    Trace2Header.samprate o m p =
      .ofBits64 t.samprate.toNat := by
  unfold Trace2Header.samprate
  rw [h.samprate, ByteOrder.value_bytes]
  exact t.samprate.toNat_lt

/- The check of the end time passes. -/
theorem Holds.not_inconsistent
    (h : t.Holds m p o) :
    ¬ Inconsistent o m p := by
  unfold Inconsistent
  rw [h.nsamp_eq, h.starttime_eq, h.endtime_eq,
    h.samprate_eq]
  exact t.consistent

theorem Holds.bytePerSample_eq
    (h : t.Holds m p o) :
    bytePerSample m p = t.kind.width :=
  bytePerSample_of_digit h.digit h.nul

end Read

/- Without samples, at one sample per second from time zero. -/
def plain [Rounding] : Tracebuf where
  pinno := 0
  starttime := 0
  endtime := 0
  samprate := 0x3FF0000000000000
  sta := ⟨List.replicate 7 0, rfl, by decide⟩
  net := ⟨List.replicate 9 0, rfl, by decide⟩
  chan := ⟨List.replicate 4 0, rfl, by decide⟩
  loc := ⟨List.replicate 3 0, rfl, by decide⟩
  version0 := ch '2'
  version1 := ch '0'
  kind := .i4
  last := 0
  samples := []
  starttime_finite := by decide +kernel
  endtime_finite := by decide +kernel
  samprate_finite := by decide +kernel
  samprate_pos := by decide +kernel
  few := by decide
  sample_lt := by simp
  consistent :=
    @not_endtimeOff_of_whole _ 0 0 0
      (by decide) (by decide) (by decide)

end Tracebuf

------------------------------------------------------------
-- The Encoding In The Host's Order
------------------------------------------------------------

section Swap

variable [Rounding]
variable {host o : ByteOrder}
variable {m : ByteMem} {p : Int} {t : Tracebuf}

/- The header numbers read in the host's order. -/
omit [Rounding] in
theorem read_number_localMessage
    {q : Int}
    {w n : Nat}
    (h : m.read q w = o.bytes w n)
    (hNe : o ≠ host)
    (hFront : q + w ≤ p + 57)
    (hSwap :
      (swapHeader m p (version0 m p)).read q w =
        (m.read q w).reverse)
    (k : SampleKind) :
    (localMessage host o m p (version0 m p) k).read q w =
      host.bytes w n := by
  have hFrontRead :
      (localMessage host o m p (version0 m p) k).read q w =
        (localHeader host o m p (version0 m p)).read q w := by
    apply read_congr
    intro i _ hHigh
    exact localMessage_of_front host o m p _ (by omega)
  rw [hFrontRead]
  unfold localHeader
  rw [if_neg hNe, hSwap, h, ByteOrder.reverse_bytes,
    swap_eq_of_ne (Ne.symm hNe)]

/- Bytes after the datatype characters, up to the samples. -/
omit [Rounding] in
theorem localMessage_of_tail
    {i : Int}
    (hNe : o ≠ host)
    (hLow : p + 59 ≤ i)
    (hHigh : i < p + 64)
    (v : UInt8)
    (k : SampleKind) :
    localMessage host o m p v k i = swapHeader m p v i := by
  unfold localMessage localHeader
  rw [if_neg hNe, if_neg hNe]
  simp only [swapData]
  rw [set_of_ne _ _ (by omega), set_of_ne _ _ (by omega)]
  apply swapWords_of_outside
  left
  unfold samples
  omega

/- The last four bytes follow the version. -/
theorem read_last_localMessage
    (h : t.Holds m p o)
    (hNe : o ≠ host) :
    (localMessage host o m p (version0 m p) t.kind).read
        (p + 60) 4 = t.lastBytes host := by
  have hTail :
      (localMessage host o m p (version0 m p) t.kind).read
          (p + 60) 4 =
        (swapHeader m p (version0 m p)).read (p + 60) 4 := by
    apply read_congr
    intro i hLow hHigh
    push_cast at hHigh
    exact localMessage_of_tail hNe (by omega) (by omega) _ _
  have hLast := h.last
  rw [hTail]
  unfold Tracebuf.lastBytes at hLast ⊢
  by_cases hV : t.IsV21
  · rw [if_pos hV] at hLast
    rw [if_pos hV]
    have hOne : version1 m p = ch '1' := h.version1.trans hV.2
    have hTwo : version0 m p = ch '2' := h.version0.trans hV.1
    have hFactor :
        (swapHeader m p (version0 m p)).read (p + 60) 4 =
          (m.swapAt (p + 60) 4).read (p + 60) 4 := by
      apply read_congr
      intro i hLow _
      rw [hTwo]
      exact swapHeader_of_factor m (by omega) hOne
    rw [hFactor, read_swapAt_self, hLast,
      ByteOrder.reverse_bytes, swap_eq_of_ne (Ne.symm hNe)]
  · rw [if_neg hV] at hLast
    rw [if_neg hV, ← hLast]
    apply read_congr
    intro i hLow _
    apply swapHeader_of_tail m (by omega)
    rintro ⟨hTwo, hOne⟩
    exact hV ⟨h.version0.symm.trans hTwo,
      h.version1.symm.trans hOne⟩

/- Each sample is laid out in the host's order. -/
theorem read_samples_localMessage
    (h : t.Holds m p o)
    (hNe : o ≠ host)
    (j : Nat)
    (hj : j < t.samples.length) :
    (localMessage host o m p (version0 m p) t.kind).read
        (p + 64 + j * t.kind.width) t.kind.width =
      host.bytes t.kind.width t.samples[j] := by
  have hBefore : (0 : Int) ≤ j * t.kind.width := by positivity
  have hWords :
      (localMessage host o m p (version0 m p) t.kind).read
          (p + 64 + j * t.kind.width) t.kind.width =
        ((localHeader host o m p (version0 m p)).swapWords
          (p + 64) t.kind.width t.samples.length).read
            (p + 64 + j * t.kind.width) t.kind.width := by
    apply read_congr
    intro i hLow _
    unfold localMessage
    rw [if_neg hNe, h.nsamp_eq]
    simp only [swapData]
    rw [set_of_ne _ _ (by omega), set_of_ne _ _ (by omega)]
    rfl
  rw [hWords, read_swapWords_word _ _ _ hj]
  have hSame :
      (localHeader host o m p (version0 m p)).read
          (p + 64 + j * t.kind.width) t.kind.width =
        m.read (p + 64 + j * t.kind.width) t.kind.width := by
    apply read_congr
    intro i hLow _
    exact localHeader_of_outside host o m p _ (by omega)
  rw [hSame, h.samples j hj, ByteOrder.reverse_bytes,
    swap_eq_of_ne (Ne.symm hNe)]

/- The memory left holds the encoding in the host's order. -/
theorem holds_localMessage
    (h : t.Holds m p o) :
    t.Holds (localMessage host o m p (version0 m p) t.kind) p
      host := by
  by_cases hNe : o = host
  · unfold localMessage
    rw [if_pos hNe, ← hNe]
    exact h
  · rcases read_swapHeader m p (version0 m p) with
      ⟨h₁, h₂, h₃, h₄, h₅⟩
    have hCodes (i : Int) (hi : p + 32 ≤ i ∧ i < p + 57) :
        localMessage host o m p (version0 m p)
          t.kind i = m i := by
      rw [localMessage_of_front host o m p _ (by omega)]
      exact localHeader_of_outside host o m p _ (by omega)
    have hRead (q : Int) (n : Nat)
        (hq : p + 32 ≤ q ∧ q + n ≤ p + 57) :
        (localMessage host o m p (version0 m p)
          t.kind).read q n = m.read q n := by
      apply read_congr
      intro i hLow hHigh
      exact hCodes i (by omega)
    exact
      { pinno :=
          read_number_localMessage h.pinno hNe
            (by push_cast; omega) h₁ _
        nsamp :=
          read_number_localMessage h.nsamp hNe
            (by push_cast; omega) h₂ _
        starttime :=
          read_number_localMessage h.starttime hNe
            (by push_cast; omega) h₃ _
        endtime :=
          read_number_localMessage h.endtime hNe
            (by push_cast; omega) h₄ _
        samprate :=
          read_number_localMessage h.samprate hNe
            (by push_cast; omega) h₅ _
        sta := (hRead _ 7 (by push_cast; omega)).trans h.sta
        net := (hRead _ 9 (by push_cast; omega)).trans h.net
        chan := (hRead _ 4 (by push_cast; omega)).trans h.chan
        loc := (hRead _ 3 (by push_cast; omega)).trans h.loc
        version0 := (hCodes _ (by omega)).trans h.version0
        version1 := (hCodes _ (by omega)).trans h.version1
        letter := by
          unfold localMessage
          rw [if_neg hNe]
          simp only [swapData]
          rw [set_of_ne _ _ (by omega), set_self]
        digit := by
          unfold localMessage
          rw [if_neg hNe]
          simp only [swapData]
          rw [set_self]
          cases t.kind <;> rfl
        nul := by
          rw [localMessage_of_tail hNe (by omega) (by omega),
            swapHeader_of_outside m _ (by omega)]
          exact h.nul
        last := read_last_localMessage h hNe
        samples := read_samples_localMessage h hNe }

/-
  The routine accepts an encoding in either order and leaves
  the encoding in the host's order, and the rest untouched.
-/
theorem swapWavemsg2Makelocal_encode
    (host : ByteOrder)
    (h : t.Holds m p o) :
    (swapWavemsg2Makelocal host m p).1 = 0 ∧
      t.Holds (swapWavemsg2Makelocal host m p).2 p host ∧
      ∀ i, i < p ∨ p + t.size ≤ i →
        (swapWavemsg2Makelocal host m p).2 i = m i := by
  have hFew : nsamp o m p ≤ t.kind.capacity := by
    rw [h.nsamp_eq]
    exact_mod_cast t.few
  rw [swapWavemsg2Makelocal_of_consistent host o m p h.kindOf_eq
    hFew h.not_inconsistent]
  refine ⟨rfl, holds_localMessage h, ?_⟩
  intro i hOut
  apply localMessage_of_outside host o m p
  · rw [h.nsamp_eq]
    unfold Tracebuf.size sizeofTrace2Header at hOut
    push_cast at hOut
    omega
  · rw [h.nsamp_eq]
    omega

end Swap

end TankConvertor