import TankConvertor.Mseed.Model
import TankConvertor.Sac.Doubles

/-
  The records of the miniSEED converter carry the samples of
  their packets, whatever earlier calls left in the static
  buffer, and agree with the SAC data section.

  Key definitions include:
    * `Int32Buf.Sound`
    * `recordOf`
    * `ConvertersAgree`

  Key theorems include:
    * `storeCells_eq`
    * `widenSamples_spec`
    * `bufAfter_sound`
    * `records_eq`
    * `converters_agree_doubles`
    * `converters_agree`
-/

------------------------------------------------------------
-- The Static Buffer
------------------------------------------------------------

namespace TankConvertor

/- `int32_num` is the number of cells allocated. -/
def Int32Buf.Sound (b : Int32Buf) : Prop :=
  b.num = b.cells.length

theorem initial_sound : Int32Buf.initial.Sound := rfl

@[simp] theorem length_storeCells
    (cells : List Int)
    (j : Nat)
    (vs : List Int) :
    (storeCells cells j vs).length = cells.length := by
  induction vs generalizing cells j with
  | nil => rfl
  | cons v vs ih => simp [storeCells, ih]

/- Values that fit are stored, and nothing else changes. -/
theorem storeCells_eq
    {cells : List Int}
    {j : Nat}
    {vs : List Int}
    (hFits : j + vs.length ≤ cells.length) :
    storeCells cells j vs =
      cells.take j ++ vs ++ cells.drop (j + vs.length) := by
  induction vs generalizing cells j with
  | nil => simp [storeCells]
  | cons v vs ih =>
      rw [List.length_cons] at hFits
      have hLt : j < cells.length := by omega
      have hRest : j + 1 + vs.length ≤ (cells.set j v).length := by
        rw [List.length_set]
        omega
      have hTake :
          (cells.set j v).take (j + 1) = cells.take j ++ [v] := by
        rw [List.take_add_one, List.take_set_of_le le_rfl,
          List.getElem?_set_self hLt]
        rfl
      have hDrop :
          (cells.set j v).drop (j + 1 + vs.length) =
            cells.drop (j + (v :: vs).length) := by
        rw [List.drop_set_of_lt (by omega), List.length_cons]
        congr 1
        omega
      rw [storeCells, ih hRest, hTake, hDrop]
      simp

theorem growInt32Buf_spec
    {b : Int32Buf}
    (hSound : b.Sound)
    (n : Int) :
    (growInt32Buf n b).Sound ∧
      n ≤ (growInt32Buf n b).cells.length := by
  unfold Int32Buf.Sound at hSound ⊢
  unfold growInt32Buf
  split_ifs with hLess
  · simp only [List.length_take, List.length_append,
      List.length_replicate]
    omega
  · omega

@[simp] theorem length_int16s
    (host : ByteOrder)
    (p : Packet) :
    (p.int16s host).length = p.nsamp.toNat := by
  simp [Packet.int16s]

/-
  The buffer is always large enough: after the conversion
  its first cells are the packet's samples.
-/
theorem widenSamples_spec
    {b : Int32Buf}
    (hSound : b.Sound)
    (host : ByteOrder)
    (p : Packet) :
    (widenSamples host p b).Sound ∧
      (widenSamples host p b).cells.take p.nsamp.toNat =
        p.int16s host := by
  have hGrow := growInt32Buf_spec hSound p.nsamp
  have hFits :
      0 + (p.int16s host).length ≤
        (growInt32Buf p.nsamp b).cells.length := by
    rw [length_int16s]
    omega
  constructor
  · unfold Int32Buf.Sound widenSamples
    simp only [length_storeCells]
    exact hGrow.1
  · unfold widenSamples
    simp only [storeCells_eq hFits, List.take_zero,
      List.nil_append]
    exact List.take_left' (length_int16s host p)

------------------------------------------------------------
-- The Records Of A Call
------------------------------------------------------------

/- The record of a packet, without the buffer. -/
def recordOf
    [Rounding]
    (host : ByteOrder)
    (sid : SidArgs)
    (k : SampleKind)
    (p : Packet) :
    MsRecord where
  sid := sid
  pubversion := 1
  starttime := nstimeOf p.starttime
  samprate := p.samprate
  samplecnt := p.nsamp
  numsamples := p.nsamp
  sampletype := sampletypeOf k
  samples := samplesOf host k p ⟨p.int16s host, p.nsamp⟩

/- A packet of an unknown format has no record. -/
def recordsOf
    [Rounding]
    (host : ByteOrder)
    (sid : SidArgs)
    (p : Packet) :
    List MsRecord :=
  match p.format with
  | none => []
  | some k => [recordOf host sid k p]

/- One iteration adds the packet's own record. -/
theorem msBody_spec
    [Rounding]
    {s : MsState}
    (hSound : s.buf.Sound)
    (host : ByteOrder)
    (addmsr : MsRecord → Bool)
    (sid : SidArgs)
    (p : Packet) :
    (msBody host addmsr sid s p).buf.Sound ∧
      (msBody host addmsr sid s p).records =
        s.records ++ recordsOf host sid p := by
  unfold msBody recordsOf
  cases hFormat : p.format with
  | none => simpa using hSound
  | some k =>
      have hWide := widenSamples_spec hSound host p
      have hAll :
          (p.int16s host).take p.nsamp.toNat = p.int16s host :=
        List.take_of_length_le (length_int16s host p).le
      cases k with
      | i2 =>
          refine ⟨by simpa [addRecord] using hWide.1, ?_⟩
          simp [addRecord, recordOf, samplesOf, hWide.2, hAll]
      | i4 =>
          refine ⟨by simpa [addRecord] using hSound, ?_⟩
          simp [addRecord, recordOf, samplesOf]
      | f4 =>
          refine ⟨by simpa [addRecord] using hSound, ?_⟩
          simp [addRecord, recordOf, samplesOf]
      | f8 =>
          refine ⟨by simpa [addRecord] using hSound, ?_⟩
          simp [addRecord, recordOf, samplesOf]

theorem foldl_msBody_spec
    [Rounding]
    (host : ByteOrder)
    (addmsr : MsRecord → Bool)
    (sid : SidArgs)
    (packets : List Packet)
    {s : MsState}
    (hSound : s.buf.Sound) :
    (packets.foldl (msBody host addmsr sid) s).buf.Sound ∧
      (packets.foldl (msBody host addmsr sid) s).records =
        s.records ++ packets.flatMap (recordsOf host sid) := by
  induction packets generalizing s with
  | nil => simpa using hSound
  | cons p packets ih =>
      have hStep := msBody_spec hSound host addmsr sid p
      have hRest := ih hStep.1
      rw [List.foldl_cons]
      refine ⟨hRest.1, ?_⟩
      rw [hRest.2, hStep.2, List.flatMap_cons, List.append_assoc]

/- Any history of calls leaves the buffer sound. -/
theorem bufAfter_sound
    [Rounding]
    (host : ByteOrder)
    (calls : List MsCall) :
    (bufAfter host calls).Sound := by
  have hGo :
      ∀ (cs : List MsCall) (b : Int32Buf), b.Sound →
        (cs.foldl
          (fun b c =>
            (msprocTlistAdd host c.now c.addmsr b c.node
              c.packets).buf) b).Sound := by
    intro cs
    induction cs with
    | nil => exact fun b hb => hb
    | cons c cs ih =>
        intro b hb
        rw [List.foldl_cons]
        apply ih
        exact
          (foldl_msBody_spec host c.addmsr (sidArgsOf c.node)
            c.packets (s := msInit c.now b) hb).1
  exact hGo calls Int32Buf.initial initial_sound

/- The records of a call do not depend on the calls before. -/
theorem records_eq
    [Rounding]
    (host : ByteOrder)
    (now : Int)
    (addmsr : MsRecord → Bool)
    (calls : List MsCall)
    (n : TraceNode)
    (packets : List Packet) :
    (msprocTlistAdd host now addmsr (bufAfter host calls) n
        packets).records =
      packets.flatMap (recordsOf host (sidArgsOf n)) := by
  have hSpec :=
    foldl_msBody_spec host addmsr (sidArgsOf n) packets
      (s := msInit now (bufAfter host calls))
      (bufAfter_sound host calls)
  exact hSpec.2

------------------------------------------------------------
-- Agreement
------------------------------------------------------------

namespace MsSamples

def length : MsSamples → Nat
| .int32s xs => xs.length
| .floats xs => xs.length
| .doubles xs => xs.length

/- Each sample converted to a `SACWORD`. -/
def sacwords : MsSamples → List SacWord
| .int32s xs => xs.map Binary32.ofInt
| .floats xs => xs
| .doubles xs => xs.map Binary32.ofBits64

end MsSamples

/- The record of a packet, sample for sample. -/
structure Carries (p : Packet) (r : MsRecord) : Prop where
  samplecnt : r.samplecnt = p.nsamp
  numsamples : r.numsamples = p.nsamp
  length : (r.samples.length : Int) = p.nsamp

/-
  One record for each packet, in order, and together the
  data section that the SAC converter writes.
-/
def ConvertersAgree
    [Rounding]
    (host : ByteOrder)
    (now : Int)
    (outpath : List UInt8)
    (n : TraceNode)
    (packets : List Packet)
    (records : List MsRecord) : Prop :=
  List.Forall₂ Carries packets records ∧
    ∃ f, sacprocTraceOutput host now outpath n packets = some f ∧
      records.flatMap (fun r => r.samples.sacwords) = f.data

theorem recordOf_words
    [Rounding]
    {p : Packet}
    {k : SampleKind}
    {n : Nat}
    (h : p.WellFormed k n)
    (host : ByteOrder)
    (sid : SidArgs) :
    (recordOf host sid k p).samples.sacwords = p.words host := by
  have hAll :
      (p.int16s host).take p.nsamp.toNat = p.int16s host :=
    List.take_of_length_le (length_int16s host p).le
  have hCount : p.nsamp.toNat = n := by
    rw [h.nsamp, Int.toNat_natCast]
  rw [h.words_eq]
  cases k with
  | i2 =>
      simp only [recordOf, samplesOf, hAll, MsSamples.sacwords]
      unfold Packet.int16s Packet.sacwords
      rw [hCount]
      apply Blocks.map_map_of_eq
      intro j
      exact (sacword_i2 host _).symm
  | i4 =>
      have hInner :
          (p.rawWords host 4).map
              (fun v : Nat => wrap32 (v : Int)) =
            (List.range n).map
              (fun j =>
                wrap32 (host.value (p.dataAt (4 * j) 4))) := by
        unfold Packet.rawWords
        rw [hCount]
        exact Blocks.map_map_of_eq (fun _ => rfl) _
      simp only [recordOf, samplesOf, hInner, MsSamples.sacwords]
      unfold Packet.sacwords
      apply Blocks.map_map_of_eq
      intro j
      exact (sacword_i4 host _).symm
  | f4 =>
      simp only [recordOf, samplesOf, MsSamples.sacwords]
      unfold Packet.rawWords Packet.sacwords
      rw [hCount]
      apply Blocks.map_map_of_eq
      intro j
      exact (sacword_f4 host _).symm
  | f8 =>
      simp only [recordOf, samplesOf, MsSamples.sacwords]
      unfold Packet.rawWords Packet.sacwords
      rw [hCount]
      apply Blocks.map_map_of_eq
      intro j
      exact (sacword_f8 host _).symm

theorem recordOf_carries
    [Rounding]
    {p : Packet}
    {k : SampleKind}
    {n : Nat}
    (h : p.WellFormed k n)
    (host : ByteOrder)
    (sid : SidArgs) :
    Carries p (recordOf host sid k p) := by
  refine ⟨rfl, rfl, ?_⟩
  rw [h.nsamp]
  cases k <;>
    simp [recordOf, samplesOf, MsSamples.length,
      Packet.rawWords, h.nsamp]

/- The records of well-formed packets. -/
theorem records_of_wellFormed
    [Rounding]
    (host : ByteOrder)
    (sid : SidArgs)
    {packets : List Packet}
    (hWell : ∀ p ∈ packets, p.IsWellFormed) :
    List.Forall₂ Carries packets
        (packets.flatMap (recordsOf host sid)) ∧
      (packets.flatMap (recordsOf host sid)).flatMap
          (fun r => r.samples.sacwords) =
        packets.flatMap (Packet.words host) := by
  induction packets with
  | nil => exact ⟨.nil, rfl⟩
  | cons p packets ih =>
      rcases hWell p List.mem_cons_self with ⟨k, n, h⟩
      have hRest :=
        ih (fun q hq => hWell q (List.mem_cons_of_mem _ hq))
      have hOne :
          recordsOf host sid p = [recordOf host sid k p] := by
        simp only [recordsOf, h.format]
      rw [List.flatMap_cons, hOne, List.singleton_append,
        List.flatMap_cons, List.flatMap_cons,
        recordOf_words h, hRest.2]
      exact ⟨.cons (recordOf_carries h host sid) hRest.1, rfl⟩

/-
  The converters agree on a trace in which every packet is
  stored, however times are rounded.
-/
theorem agree_of_unbroken
    [Rounding]
    (host : ByteOrder)
    (now now' : Int)
    (outpath : List UInt8)
    (addmsr : MsRecord → Bool)
    (calls : List MsCall)
    (n : TraceNode)
    {packets : List Packet}
    (hWell : ∀ p ∈ packets, p.IsWellFormed)
    (hUnbroken : Unbroken packets)
    (hFew : totalSamples packets < 2 ^ 31) :
    ConvertersAgree host now outpath n packets
      (msprocTlistAdd host now' addmsr (bufAfter host calls) n
        packets).records := by
  have hRecords :=
    records_of_wellFormed host (sidArgsOf n) hWell
  rcases output_of_unbroken host now outpath n hWell hUnbroken
      hFew with
    ⟨f, hOutput, -, hData⟩
  rw [records_eq]
  exact ⟨hRecords.1, f, hOutput, hRecords.2.trans hData.symm⟩

section Doubles

attribute [local instance] Rounding.nearest

/-
  Rounded as the machine rounds, they agree on the contiguous
  traces of doubles that an `int` can count.
-/
theorem converters_agree_doubles
    (host : ByteOrder)
    (now now' : Int)
    (outpath : List UInt8)
    (addmsr : MsRecord → Bool)
    (calls : List MsCall)
    (n : TraceNode)
    {sr : ℚ}
    (hPos : 0 < sr)
    (hRange : 1 / sr < 2 ^ binary64.top)
    {packets : List Packet}
    (hC : Contiguous sr packets)
    (hDoubles : ∀ p ∈ packets, p.OfDoubles)
    (hFew : totalSamples packets < 2 ^ 31) :
    ConvertersAgree host now outpath n packets
      (msprocTlistAdd host now' addmsr (bufAfter host calls) n
        packets).records :=
  agree_of_unbroken host now now' outpath addmsr calls n
    hC.wellFormed (hC.unbroken_of_doubles hPos hRange hDoubles)
    hFew

end Doubles

attribute [local instance] Rounding.exact

end TankConvertor
