import TankConvertor.Sac.Counter

/-
  How many words the SAC converter stores for a trace, from
  the times, the rates and the counts of its packets alone,
  and that a file can be written just when an `int` can
  count them.

  Key definitions include:
    * `Span` and `Extent`
    * `Extent.step`
    * `NearBy`

  Key theorems include:
    * `Extent.At.step`
    * `Extent.At.run`
    * `written_iff`
-/

------------------------------------------------------------
-- Extents
------------------------------------------------------------

namespace TankConvertor

/- A stretch of samples: its times, rate and number. -/
structure Span where
  start : ExtRat
  stop : ExtRat
  rate : ExtRat
  count : Nat
deriving DecidableEq

/- The time of the last sample, and the number of words. -/
structure Extent where
  stop : ExtRat
  words : Nat
deriving DecidableEq

namespace Extent

/- The span comes behind a gap, as the converter sees it. -/
def Gap [Rounding] (x : Extent) (a : Span) : Prop :=
  Rounding.double
      (x.stop + Rounding.double (ExtRat.ofInt 2 / a.rate)) <
    a.start

instance [Rounding] (x : Extent) (a : Span) :
    Decidable (x.Gap a) := by
  unfold Gap
  infer_instance

/- The span has been covered before. -/
def Dup [Rounding] (x : Extent) (a : Span) : Prop :=
  a.stop <
    Rounding.double
      (x.stop + Rounding.double (ExtRat.ofInt 1 / a.rate))

instance [Rounding] (x : Extent) (a : Span) :
    Decidable (x.Dup a) := by
  unfold Dup
  infer_instance

/- The intervals up to a span; so many words fill a gap. -/
def fill [Rounding] (x : Extent) (a : Span) : Int :=
  (Rounding.single
      (Rounding.single a.rate *
        Rounding.single
          (Rounding.double (a.start - x.stop)))).truncTo
    (2 ^ 31)

/-
  A span behind a gap comes with the fill, unless that is
  too much for an `int`; a span of times that are there
  already is left out.
-/
def step [Rounding] (x : Extent) (a : Span) : Extent :=
  if x.Gap a then
    if x.words + (x.fill a).toNat < 2 ^ 31 then
      ⟨a.stop, x.words + (x.fill a).toNat + a.count⟩
    else x
  else if x.Dup a then x
  else ⟨a.stop, x.words + a.count⟩

/- The extent of a list, which begins with its first span. -/
def ofSpans [Rounding] : List Span → Extent
| [] => ⟨.fin 0, 0⟩
| a :: as => as.foldl step ⟨a.stop, a.count⟩

/- The fill of a gap is a count that one growth has room for. -/
def Near [Rounding] (x : Extent) (a : Span) : Prop :=
  x.Gap a → 0 ≤ x.fill a ∧ x.fill a ≤ growth + 1

instance [Rounding] (x : Extent) (a : Span) :
    Decidable (x.Near a) := by
  unfold Near
  infer_instance

/- No gap lacks more samples than one growth has room for. -/
def NearFrom [Rounding] : Extent → List Span → Prop
| _, [] => True
| x, a :: as => x.Near a ∧ NearFrom (x.step a) as

instance decidableNearFrom [Rounding] :
    ∀ (x : Extent) (as : List Span), Decidable (NearFrom x as)
| _, [] => inferInstanceAs (Decidable True)
| x, a :: as =>
    haveI := decidableNearFrom (x.step a) as
    inferInstanceAs (Decidable (_ ∧ _))

theorem words_le_step
    [Rounding]
    (x : Extent)
    (a : Span) :
    x.words ≤ (x.step a).words := by
  unfold step
  split_ifs
  · simp only
    omega
  · exact le_rfl
  · exact le_rfl
  · simp

theorem words_le_foldl
    [Rounding]
    (x : Extent)
    (as : List Span) :
    x.words ≤ (as.foldl step x).words := by
  induction as generalizing x with
  | nil => exact le_rfl
  | cons a as ih =>
      exact (x.words_le_step a).trans (ih (x.step a))

end Extent

/- A list of spans without wide gaps. -/
def NearBy [Rounding] : List Span → Prop
| [] => True
| a :: as => Extent.NearFrom ⟨a.stop, a.count⟩ as

instance [Rounding] :
    ∀ as : List Span, Decidable (NearBy as)
| [] => inferInstanceAs (Decidable True)
| _ :: _ => inferInstanceAs (Decidable (Extent.NearFrom _ _))

/- The packet takes the span. -/
structure Packet.Spans (p : Packet) (a : Span) : Prop where
  wellFormed : p.IsWellFormed
  start : p.starttime = a.start
  stop : p.endtime = a.stop
  rate : p.samprate = a.rate
  count : p.nsamp = a.count

------------------------------------------------------------
-- Storing
------------------------------------------------------------

/-
  The state holds `m` words, and has counted them as far as
  an `int` goes; the capacity is one that doubled slots and
  growths lead to.
-/
structure SacState.Loaded (m : Nat) (s : SacState) : Prop where
  words : s.words.length = m
  count : s.nsampTrace = wrap32 m
  fits : m ≤ s.capacity
  low : s.capacity = 0 ∨ growth ≤ s.capacity
  high : s.capacity ≤ 25 * 2 ^ 27

section Store

variable {host : ByteOrder}
variable {s t : SacState}
variable {p : Packet} {a : Span}
variable {m : Nat}

theorem SacState.Loaded.toFits
    (h : s.Loaded m) :
    s.Fits := by
  unfold SacState.Fits
  rw [h.words]
  exact h.fits

/- Nothing else of the state is looked at. -/
theorem SacState.Loaded.congr
    (h : s.Loaded m)
    (hWords : t.words = s.words)
    (hCount : t.nsampTrace = s.nsampTrace)
    (hCapacity : t.capacity = s.capacity) :
    t.Loaded m := by
  refine ⟨?_, ?_, ?_, ?_, ?_⟩
  · rw [hWords]
    exact h.words
  · rw [hCount]
    exact h.count
  · rw [hCapacity]
    exact h.fits
  · rw [hCapacity]
    exact h.low
  · rw [hCapacity]
    exact h.high

/- What storing a packet leaves, if it ends. -/
structure Stored
    (p : Packet)
    (m : Nat)
    (s t : SacState) : Prop where
  loaded : t.Loaded m
  room : m < t.capacity
  endtime : t.endtime = p.endtime
  i : t.i = s.i

theorem storePacket_loaded
    (hp : p.Spans a)
    (hLoaded : s.Loaded m)
    (hStore : storePacket host p s = some t) :
    Stored p (m + a.count) s t := by
  rcases hp.wellFormed with ⟨k, n, h⟩
  have hCount : n = a.count := by
    exact_mod_cast h.nsamp.symm.trans hp.count
  have hFits := hLoaded.toFits
  have hLen : (p.words host).length = n := h.length_words host
  have hLow := hLoaded.low
  have hHigh := hLoaded.high
  have hGrowth : growth = 204800 := rfl
  rcases storePacket_cases h hFits hStore with
    ⟨capacity, rfl, hRoom, hCapacity⟩
  rw [hLoaded.words, hCount] at hRoom
  refine ⟨⟨?_, ?_, hRoom.le, ?_, ?_⟩, hRoom, rfl, rfl⟩
  · simp only [advance, List.length_append, hLoaded.words, hLen,
      hCount]
  · simp only [advance]
    rw [hLoaded.count, hp.count, wrap32_wrap32_add]
    push_cast
    rfl
  · simp only [advance]
    omega
  · simp only [advance]
    omega

/- Where it fails the words are too many for an `int`. -/
theorem storePacket_overfull
    (hp : p.Spans a)
    (hLoaded : s.Loaded m)
    (hStore : storePacket host p s = none) :
    2 ^ 31 ≤ m + a.count := by
  rcases hp.wellFormed with ⟨k, n, h⟩
  have hCount : n = a.count := by
    exact_mod_cast h.nsamp.symm.trans hp.count
  have hFits := hLoaded.toFits
  rw [storePacket_eq h hFits, hLoaded.words, hCount] at hStore
  split_ifs at hStore with hRoom hSmall
  omega

------------------------------------------------------------
-- Gaps
------------------------------------------------------------

/- The state that stands at an extent. -/
structure Extent.At (x : Extent) (s : SacState) : Prop where
  started : 0 < s.i
  stop : s.endtime = x.stop
  loaded : s.Loaded x.words
  room : x.words < s.capacity

variable {x : Extent}

theorem Extent.At.grown
    (hAt : x.At s) :
    growth ≤ s.capacity := by
  have hRoom := hAt.room
  rcases hAt.loaded.low with hZero | hLow
  · omega
  · exact hLow

/- The tests look at the end time and at the span only. -/
theorem Extent.At.gapBefore_iff
    [Rounding]
    (hAt : x.At s)
    (hp : p.Spans a) :
    GapBefore s p ↔ x.Gap a := by
  unfold GapBefore Extent.Gap
  rw [hAt.stop, hp.rate, hp.start]

theorem Extent.At.duplicated_iff
    [Rounding]
    (hAt : x.At s)
    (hp : p.Spans a) :
    Duplicated s p ↔ x.Dup a := by
  unfold Duplicated Extent.Dup
  rw [hAt.stop, hp.rate, hp.stop]

theorem Extent.At.nfill_eq
    [Rounding]
    (hAt : x.At s)
    (hp : p.Spans a) :
    nfill s p = x.fill a := by
  unfold nfill Extent.fill
  rw [hAt.stop, hp.rate, hp.start]

/- A gap that an `int` can count is accepted and filled. -/
theorem Extent.At.filled
    (hAt : x.At s)
    {d : Nat}
    (hNear : d ≤ growth + 1)
    (hInt : x.words + d < 2 ^ 31) :
    ¬ Bogus s d ∧
      ∃ t, roomForGap d s = some t ∧ t.i = s.i ∧
        (fillGap d t).Loaded (x.words + d) := by
  have hGrowth : growth = 204800 := rfl
  have hRoom := hAt.room
  have hGrown := hAt.grown
  have hHigh := hAt.loaded.high
  have hCount : s.nsampTrace = x.words := by
    rw [hAt.loaded.count]
    exact wrap32_of_mem (by omega) (by omega)
  have hSize :
      (newsize s d : Int) =
        (s.nsampTrace + d) * 4 + sacHeaderSize :=
    newsize_eq (by omega) (by omega)
  have hFill (t : SacState)
      (hWords : t.words = s.words)
      (hTrace : t.nsampTrace = s.nsampTrace)
      (hEnough : x.words + d ≤ t.capacity)
      (hLow : growth ≤ t.capacity)
      (hHigh : t.capacity ≤ 25 * 2 ^ 27) :
      (fillGap d t).Loaded (x.words + d) := by
    have hLen : t.words.length = x.words := by
      rw [hWords, hAt.loaded.words]
    refine ⟨?_, ?_, hEnough, Or.inr hLow, hHigh⟩
    · simp only [fillGap, List.length_append,
        List.length_replicate, SacState.room, hLen]
      omega
    · simp only [fillGap, hTrace, hCount]
      push_cast
      rfl
  refine ⟨?_, ?_⟩
  · unfold Bogus SacState.buffersiz
    omega
  · by_cases hGrow : s.buffersiz < newsize s d
    · have hSmall : s.capacity < 2 ^ 31 := by
        unfold SacState.buffersiz at hGrow
        omega
      have hGrowOut : growOutbuf s = some (reallocOutbuf s) := by
        unfold growOutbuf realignSacFilePartition
        rw [if_pos]
        simp only [reallocOutbuf, hAt.loaded.words]
        omega
      refine ⟨reallocOutbuf s, ?_, rfl, hFill _ rfl rfl ?_ ?_ ?_⟩
      · unfold roomForGap
        rw [if_pos hGrow, hGrowOut]
      · simp only [reallocOutbuf]
        omega
      · simp only [reallocOutbuf]
        omega
      · simp only [reallocOutbuf]
        omega
    · refine ⟨s, if_neg hGrow, rfl, hFill s rfl rfl ?_ hGrown hHigh⟩
      unfold SacState.buffersiz at hGrow
      omega

/- One that it cannot count is taken for a bogus one. -/
theorem Extent.At.bogus
    (hAt : x.At s)
    {d : Nat}
    (hNear : d ≤ growth + 1)
    (hMany : 2 ^ 31 ≤ x.words + d) :
    Bogus s d := by
  have hGrowth : growth = 204800 := rfl
  have hRoom := hAt.room
  have hHigh := hAt.loaded.high
  have hWrap :
      wrap32 (s.nsampTrace + d) = x.words + d - 2 ^ 32 := by
    rw [hAt.loaded.count, wrap32_wrap32_add]
    exact wrap32_of_carry (by omega) (by omega)
  have hHeader : sacHeaderSize = 632 := rfl
  unfold Bogus newsize SacState.buffersiz
  rw [hWrap]
  omega

------------------------------------------------------------
-- One Packet
------------------------------------------------------------

/- The body leads from extent to extent, or it fails. -/
def Extent.LeadsTo (x : Extent) (o : Option SacState) : Prop :=
  (∀ t, o = some t → x.At t) ∧ (o = none → 2 ^ 31 ≤ x.words)

variable (host) in
/- Storing, as the end of the body. -/
theorem storePacket_leadsTo
    (hp : p.Spans a)
    (hLoaded : s.Loaded m)
    (i : Nat) :
    Extent.LeadsTo ⟨a.stop, m + a.count⟩
      ((storePacket host p s).map
        (fun t => { t with i := i + 1 })) := by
  constructor
  · intro u hu
    rcases Option.map_eq_some_iff.mp hu with ⟨t, hStore, rfl⟩
    have hStored := storePacket_loaded hp hLoaded hStore
    refine ⟨Nat.succ_pos i, ?_, ?_, hStored.room⟩
    · change t.endtime = a.stop
      rw [hStored.endtime, hp.stop]
    · exact hStored.loaded.congr rfl rfl rfl
  · intro hNone
    rw [Option.map_eq_none_iff] at hNone
    exact storePacket_overfull hp hLoaded hNone

/- A packet that is left out. -/
theorem Extent.At.leftOut
    (hAt : x.At s)
    (r : ExtRat) :
    x.LeadsTo
      ((some { s with samprate := r }).map
        (fun t => { t with i := s.i + 1 })) := by
  constructor
  · intro u hu
    obtain rfl := Option.some.inj hu
    exact ⟨Nat.succ_pos _, hAt.stop,
      hAt.loaded.congr rfl rfl rfl, hAt.room⟩
  · intro hNone
    cases hNone

variable (host) in
theorem Extent.At.step
    [Rounding]
    (hAt : x.At s)
    (hp : p.Spans a)
    (hNear : x.Near a) :
    (x.step a).LeadsTo (sacBody host s p) := by
  let s₁ : SacState := { s with samprate := p.samprate }
  have hAt₁ : x.At s₁ :=
    ⟨hAt.started, hAt.stop, hAt.loaded.congr rfl rfl rfl,
      hAt.room⟩
  have hGapIff : GapBefore s₁ p ↔ x.Gap a :=
    hAt₁.gapBefore_iff hp
  have hDupIff : Duplicated s₁ p ↔ x.Dup a :=
    hAt₁.duplicated_iff hp
  rw [sacBody_next host p hAt.started]
  change
    (x.step a).LeadsTo
      ((nextPacket host p s₁).map
        (fun t => { t with i := s.i + 1 }))
  unfold Extent.step
  by_cases hGap : x.Gap a
  · rcases hNear hGap with ⟨hNonneg, hLe⟩
    have hNat : ((x.fill a).toNat : Int) = x.fill a :=
      Int.toNat_of_nonneg hNonneg
    have hFew : (x.fill a).toNat ≤ growth + 1 := by omega
    have hFill : nfill s₁ p = (x.fill a).toNat := by
      rw [hAt₁.nfill_eq hp, hNat]
    rw [if_pos hGap]
    by_cases hInt : x.words + (x.fill a).toNat < 2 ^ 31
    · rcases hAt₁.filled hFew hInt with
        ⟨hBogus, t, hRoom, hI, hLoaded⟩
      rw [← hFill] at hBogus hRoom
      rw [if_pos hInt,
        nextPacket_gap host (hGapIff.mpr hGap) hBogus hRoom,
        hFill]
      exact storePacket_leadsTo host hp hLoaded s.i
    · have hBogus := hAt₁.bogus hFew (not_lt.mp hInt)
      rw [← hFill] at hBogus
      rw [if_neg hInt,
        nextPacket_bogus host (hGapIff.mpr hGap) hBogus]
      exact hAt.leftOut p.samprate
  · have hNoGap : ¬ GapBefore s₁ p := fun h => hGap (hGapIff.mp h)
    rw [if_neg hGap]
    by_cases hDup : x.Dup a
    · rw [if_pos hDup,
        nextPacket_duplicated host hNoGap (hDupIff.mpr hDup)]
      exact hAt.leftOut p.samprate
    · have hNoDup : ¬ Duplicated s₁ p :=
        fun h => hDup (hDupIff.mp h)
      rw [if_neg hDup, nextPacket_stored host hNoGap hNoDup]
      exact storePacket_leadsTo host hp hAt₁.loaded s.i

end Store

------------------------------------------------------------
-- Whole Traces
------------------------------------------------------------

section Run

variable (host : ByteOrder)

theorem Extent.At.run
    [Rounding]
    {s : SacState}
    {x : Extent}
    {packets : List Packet}
    {spans : List Span}
    (hAt : x.At s)
    (hSpans : List.Forall₂ Packet.Spans packets spans)
    (hNear : x.NearFrom spans) :
    (spans.foldl Extent.step x).LeadsTo
      (packets.foldlM (sacBody host) s) := by
  induction hSpans generalizing s x with
  | nil =>
      refine ⟨?_, ?_⟩
      · intro t ht
        obtain rfl := Option.some.inj ht
        exact hAt
      · intro hNone
        cases hNone
  | @cons p a packets spans hp _ ih =>
      have hStep := hAt.step host hp hNear.1
      rw [List.foldlM_cons, List.foldl_cons]
      cases hBody : sacBody host s p with
      | none =>
          -- The words do not become fewer later on.
          refine ⟨fun t ht => ?_, fun _ => ?_⟩
          · cases ht
          · exact (hStep.2 hBody).trans
              (Extent.words_le_foldl _ spans)
      | some t => exact ih (hStep.1 t hBody) hNear.2

/- The file of a state at an extent. -/
theorem Extent.At.finish_iff
    [Rounding]
    {s : SacState}
    {x : Extent}
    (hAt : x.At s)
    (outpath : List UInt8)
    (n : TraceNode) :
    (∃ f, sacFinish outpath n s = some f) ↔
      x.words < 2 ^ 31 := by
  have hRoom := hAt.room
  have hHigh := hAt.loaded.high
  by_cases hInt : x.words < 2 ^ 31
  · refine iff_of_true ?_ hInt
    have hCount : s.nsampTrace = s.words.length := by
      rw [hAt.loaded.count, hAt.loaded.words]
      exact wrap32_of_mem (by omega) (by omega)
    have hLen := hAt.loaded.words
    exact ⟨_, sacFinish_eq outpath n hCount (by omega)⟩
  · refine iff_of_false ?_ hInt
    rintro ⟨f, hf⟩
    have hNeg : wrap32 s.nsampTrace < 0 := by
      have hWrap := wrap32_wrap32_add x.words 0
      rw [add_zero, add_zero] at hWrap
      rw [hAt.loaded.count, hWrap,
        wrap32_of_carry (by omega) (by omega)]
      omega
    rw [sacFinish_of_neg outpath n hNeg] at hf
    cases hf

/- The capacities that doubled slots give. -/
theorem sacInit_loaded
    (now : Int)
    {n : TraceNode}
    (hSlots : ∃ j ≤ 19, n.maxtbuf = maxNumTbuf * 2 ^ j) :
    (sacInit now n).Loaded 0 := by
  rcases hSlots with ⟨j, hj, hEq⟩
  have hAll :
      ∀ j ≤ 19,
        (maxNumTbuf * 2 ^ j * 100 % 2 ^ 32 = 0 ∨
          growth ≤ maxNumTbuf * 2 ^ j * 100 % 2 ^ 32) ∧
        maxNumTbuf * 2 ^ j * 100 % 2 ^ 32 ≤ 25 * 2 ^ 27 := by
    decide
  refine ⟨rfl, by simp [sacInit, wrap32], Nat.zero_le _, ?_, ?_⟩
  · simp only [sacInit, hEq]
    exact (hAll j hj).1
  · simp only [sacInit, hEq]
    exact (hAll j hj).2

/-
  In a trace without wide gaps a file is written just when
  an `int` can count its words.
-/
theorem written_iff
    [Rounding]
    (now : Int)
    (outpath : List UInt8)
    {n : TraceNode}
    (hSlots : ∃ j ≤ 19, n.maxtbuf = maxNumTbuf * 2 ^ j)
    {packets : List Packet}
    {spans : List Span}
    (hSpans : List.Forall₂ Packet.Spans packets spans)
    (hNear : NearBy spans) :
    (∃ f,
        sacprocTraceOutput host now outpath n packets = some f) ↔
      (Extent.ofSpans spans).words < 2 ^ 31 := by
  have hInit := sacInit_loaded now hSlots
  cases hSpans with
  | nil =>
      have hRun :
          ([] : List Packet).foldlM (sacBody host)
              (sacInit now n) =
            some (sacInit now n) := rfl
      have hInt : (sacInit now n).nsampTrace < 2 ^ 31 := by
        rw [hInit.count]
        exact wrap32_upper _
      refine iff_of_true ?_ (by norm_num [Extent.ofSpans])
      rw [sacprocTraceOutput_of_run outpath hRun,
        sacFinish_eq outpath n rfl hInt]
      exact ⟨_, rfl⟩
  | @cons p a packets spans hp hRest =>
      have hFirst :
          Extent.LeadsTo ⟨a.stop, a.count⟩
            (sacBody host (sacInit now n) p) := by
        have hLoaded :
            SacState.Loaded 0
              { sacInit now n with
                samprate := p.samprate
                header :=
                  enrichSacStarttime (sacInit now n).header
                    p.starttime } :=
          hInit.congr rfl rfl rfl
        rw [sacBody_first host p rfl]
        have hStore :=
          storePacket_leadsTo host hp hLoaded
            (sacInit now n).i
        rw [Nat.zero_add] at hStore
        exact hStore
      change _ ↔ (spans.foldl Extent.step _).words < 2 ^ 31
      unfold sacprocTraceOutput
      rw [List.foldlM_cons]
      cases hBody : sacBody host (sacInit now n) p with
      | none =>
          -- The first packet is not that long.
          have hMany := hFirst.2 hBody
          have hMore :=
            hMany.trans (Extent.words_le_foldl _ spans)
          refine iff_of_false ?_ (not_lt.mpr hMore)
          rintro ⟨f, hf⟩
          cases hf
      | some s =>
          have hRun :=
            (hFirst.1 s hBody).run host hRest hNear
          rw [Option.bind_eq_bind, Option.bind_some]
          cases hEnd : packets.foldlM (sacBody host) s with
          | none =>
              refine iff_of_false ?_ (not_lt.mpr (hRun.2 hEnd))
              rintro ⟨f, hf⟩
              cases hf
          | some t => exact (hRun.1 t hEnd).finish_iff outpath n

end Run

end TankConvertor
