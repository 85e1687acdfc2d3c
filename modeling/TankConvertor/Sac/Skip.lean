import TankConvertor.Sac.Store

/-
  Packets that the SAC converter passes over, and what is
  left of them in the state.

  Key definitions include:
    * `Alike` and `AlikeAfter`
    * `Reached`
    * `PassedOver` and `Untouched`

  Key theorems include:
    * `sacBody_alike` and `foldlM_alike`
    * `storePacket_inv`
    * `reached_of_run`
    * `sacBody_passedOver`
-/

------------------------------------------------------------
-- States That Differ In Their Bookkeeping
------------------------------------------------------------

namespace TankConvertor

/-
  The two states agree in all that later iterations read;
  both are past the first packet, or both before it.
-/
structure Alike (s t : SacState) : Prop where
  header : t.header = s.header
  words : t.words = s.words
  capacity : t.capacity = s.capacity
  nsampTrace : t.nsampTrace = s.nsampTrace
  endtime : t.endtime = s.endtime
  started : 0 < t.i ↔ 0 < s.i

/- A state with other bookkeeping. -/
def SacState.rebooked
    (s : SacState)
    (i : Nat)
    (samprate : ExtRat)
    (gapcount nfillMax : Int) :
    SacState :=
  { s with
    i := i
    samprate := samprate
    gapcount := gapcount
    nfillMax := nfillMax }

theorem Alike.eq_rebooked
    {s t : SacState}
    (h : Alike s t) :
    t = s.rebooked t.i t.samprate t.gapcount t.nfillMax := by
  cases s
  cases t
  simp only [SacState.rebooked, SacState.mk.injEq]
  exact ⟨trivial, h.header, h.words, h.capacity,
    h.nsampTrace, h.endtime, trivial, trivial, trivial⟩

section

variable (host : ByteOrder) (p : Packet) (s : SacState)
variable (i : Nat) (r : ExtRat) (g f : Int)

/- Storing does not look at the bookkeeping. -/
theorem enrichSacSamps_rebooked
    (src : Nat) :
    enrichSacSamps host p src (s.rebooked i r g f) =
      (enrichSacSamps host p src s).map
        (fun t => (t.1.rebooked i r g f, t.2)) := by
  unfold enrichSacSamps
  cases p.format <;> rfl

theorem growOutbuf_rebooked :
    growOutbuf (s.rebooked i r g f) =
      (growOutbuf s).map
        (fun t => t.rebooked i r g f) := by
  unfold growOutbuf realignSacFilePartition
  split_ifs with hLeft hRight hRight
  · rfl
  · exact (hRight hLeft).elim
  · exact (hLeft hRight).elim
  · rfl

theorem storePacket_rebooked :
    storePacket host p (s.rebooked i r g f) =
      (storePacket host p s).map
        (fun t => t.rebooked i r g f) := by
  unfold storePacket
  rw [enrichSacSamps_rebooked]
  cases enrichSacSamps host p 0 s with
  | none => rfl
  | some t =>
      obtain ⟨t, src⟩ := t
      simp only [Option.map_some]
      by_cases hFull : t.capacity ≤ t.words.length
      · have hFull' :
            (t.rebooked i r g f).capacity ≤
              (t.rebooked i r g f).words.length := hFull
        rw [if_pos hFull, if_pos hFull', growOutbuf_rebooked]
        cases growOutbuf t with
        | none => rfl
        | some u =>
            simp only [Option.map_some]
            rw [enrichSacSamps_rebooked]
            cases enrichSacSamps host p src u with
            | none => rfl
            | some v => rfl
      · have hFull' :
            ¬ (t.rebooked i r g f).capacity ≤
              (t.rebooked i r g f).words.length := hFull
        rw [if_neg hFull, if_neg hFull']
        rfl

theorem roomForGap_rebooked
    (n : Int) :
    roomForGap n (s.rebooked i r g f) =
      (roomForGap n s).map
        (fun t => t.rebooked i r g f) := by
  unfold roomForGap
  rw [growOutbuf_rebooked]
  change
    (if s.buffersiz < newsize s n then
      (growOutbuf s).map (fun t => t.rebooked i r g f)
    else some (s.rebooked i r g f)) = _
  split <;> rfl

end

section

variable (host : ByteOrder) (p : Packet)

/- A copy writes no more than there is room for. -/
theorem length_copySamps_le
    (k : SampleKind)
    (room src : Nat) :
    (copySamps host k p room src).1.length ≤ room := by
  induction room generalizing src with
  | zero => simp [copySamps]
  | succ room ih =>
      unfold copySamps
      split
      · simpa using ih (src + k.width)
      · simp

/- What a copy leaves, for a format that is known. -/
theorem enrichSacSamps_of_format
    {k : SampleKind}
    (hFormat : p.format = some k)
    (src : Nat)
    (s : SacState) :
    ∃ w src',
      enrichSacSamps host p src s =
          some ({ s with words := s.words ++ w }, src') ∧
        w.length ≤ s.room := by
  refine
    ⟨(copySamps host k p s.room src).1,
      (copySamps host k p s.room src).2, ?_,
      length_copySamps_le host p k s.room src⟩
  unfold enrichSacSamps
  rw [hFormat]

/-
  Storing leaves a packet of unknown format out, and else
  appends words that lie within the buffer.
-/
theorem storePacket_inv
    {s t : SacState}
    (hStore : storePacket host p s = some t) :
    (p.format = none ∧ t = s) ∨
      (p.format ≠ none ∧
        ∃ w capacity,
          t =
              advance p
                { s with
                  words := s.words ++ w
                  capacity := capacity } ∧
            (s.Fits → s.words.length + w.length ≤ capacity)) := by
  cases hFormat : p.format with
  | none =>
      have hNone : enrichSacSamps host p 0 s = none := by
        unfold enrichSacSamps
        rw [hFormat]
      unfold storePacket at hStore
      rw [hNone] at hStore
      exact Or.inl ⟨rfl, (Option.some.inj hStore).symm⟩
  | some k =>
      right
      refine ⟨by simp, ?_⟩
      rcases enrichSacSamps_of_format host p hFormat 0 s with
        ⟨w, src, hFirst, hRoom⟩
      unfold SacState.room at hRoom
      unfold storePacket at hStore
      rw [hFirst] at hStore
      simp only at hStore
      split_ifs at hStore with hFull
      · cases hGrow : growOutbuf { s with words := s.words ++ w } with
        | none =>
            rw [hGrow] at hStore
            cases hStore
        | some v =>
            obtain rfl := growOutbuf_words hGrow
            rcases enrichSacSamps_of_format host p hFormat src
                (reallocOutbuf { s with words := s.words ++ w })
              with ⟨w', src', hRest, hRoom'⟩
            simp only [hGrow, hRest] at hStore
            refine ⟨w ++ w', s.capacity + growth, ?_, ?_⟩
            · rw [← Option.some.inj hStore]
              simp only [reallocOutbuf, List.append_assoc]
            · intro hFits
              unfold SacState.Fits at hFits
              simp only [SacState.room, reallocOutbuf,
                List.length_append] at hRoom' ⊢
              omega
      · refine ⟨w, s.capacity, ?_, ?_⟩
        · exact (Option.some.inj hStore).symm
        · intro hFits
          unfold SacState.Fits at hFits
          omega

/- What storing leaves of the bookkeeping. -/
theorem storePacket_keeps
    {s t : SacState}
    (hStore : storePacket host p s = some t) :
    t.i = s.i ∧ t.samprate = s.samprate ∧
      t.header = s.header := by
  rcases storePacket_inv host p hStore with
    ⟨_, rfl⟩ | ⟨_, w, capacity, rfl, _⟩
  · exact ⟨rfl, rfl, rfl⟩
  · exact ⟨rfl, rfl, rfl⟩

theorem nextPacket_keeps
    [Rounding]
    {s t : SacState}
    (hNext : nextPacket host p s = some t) :
    t.i = s.i ∧ t.samprate = s.samprate ∧
      t.header = s.header := by
  rcases nextPacket_cases hNext with
    ⟨rfl, _⟩ | ⟨_, _, u, hRoom, hStore⟩ | ⟨_, _, hStore⟩
  · exact ⟨rfl, rfl, rfl⟩
  · have hStored := storePacket_keeps host p hStore
    rcases roomForGap_keeps hRoom with rfl | rfl
    · exact hStored
    · exact hStored
  · exact storePacket_keeps host p hStore

/- The rate of a packet is taken over in any case. -/
theorem samprate_of_sacBody
    [Rounding]
    {s t : SacState}
    (hBody : sacBody host s p = some t) :
    t.samprate = p.samprate := by
  rcases sacBody_cases hBody with
    ⟨u, rfl, ⟨_, hStore⟩ | ⟨_, hNext⟩⟩
  · exact (storePacket_keeps host p hStore).2.1
  · exact (nextPacket_keeps host p hNext).2.1

/- The body for a later packet, on other bookkeeping. -/
theorem nextPacket_rebooked
    [Rounding]
    (s : SacState)
    (i : Nat)
    (r : ExtRat)
    (g f : Int) :
    ∃ g' f',
      nextPacket host p (s.rebooked i r g f) =
        (nextPacket host p s).map
          (fun t => t.rebooked i r g' f') := by
  by_cases hGap : GapBefore s p
  · have hGap' : GapBefore (s.rebooked i r g f) p := hGap
    by_cases hBogus : Bogus s (nfill s p)
    · have hBogus' :
          Bogus (s.rebooked i r g f)
            (nfill (s.rebooked i r g f) p) := hBogus
      refine ⟨g, f, ?_⟩
      rw [nextPacket_bogus host hGap hBogus,
        nextPacket_bogus host hGap' hBogus']
      rfl
    · have hBogus' :
          ¬ Bogus (s.rebooked i r g f) (nfill s p) := hBogus
      refine ⟨g + 1, max f (nfill s p), ?_⟩
      have hRoom' :=
        roomForGap_rebooked s i r g f (nfill s p)
      have hFill : nfill (s.rebooked i r g f) p = nfill s p :=
        rfl
      simp only [nextPacket, if_pos hGap, if_pos hGap',
        if_neg hBogus, if_neg hBogus', hFill, hRoom']
      cases roomForGap (nfill s p) s with
      | none => rfl
      | some u =>
          exact storePacket_rebooked host p
            (fillGap (nfill s p) u) i r (g + 1)
            (max f (nfill s p))
  · have hGap' : ¬ GapBefore (s.rebooked i r g f) p := hGap
    by_cases hDup : Duplicated s p
    · have hDup' : Duplicated (s.rebooked i r g f) p := hDup
      refine ⟨g, f, ?_⟩
      rw [nextPacket_duplicated host hGap hDup,
        nextPacket_duplicated host hGap' hDup']
      rfl
    · have hDup' : ¬ Duplicated (s.rebooked i r g f) p := hDup
      refine ⟨g, f, ?_⟩
      rw [nextPacket_stored host hGap hDup,
        nextPacket_stored host hGap' hDup',
        storePacket_rebooked]

/- The sample period that a header gives for a rate. -/
def deltaOf [Rounding] (samprate : ExtRat) : ExtRat :=
  Rounding.single
    (Rounding.double (ExtRat.ofInt 1 / samprate))

/- Alike states whose rates give one sample period. -/
structure AlikeAfter [Rounding] (s t : SacState) : Prop where
  alike : Alike s t
  delta : deltaOf t.samprate = deltaOf s.samprate

/-
  An iteration leads from alike states to alike states, with
  one rate, or fails from both.
-/
theorem sacBody_alike
    [Rounding]
    {s t : SacState}
    (hAlike : Alike s t) :
    Option.Rel AlikeAfter (sacBody host s p)
      (sacBody host t p) := by
  let s₁ : SacState := { s with samprate := p.samprate }
  have hMap :
      ∀ (a : Option SacState) (g f : Int),
        (∀ u ∈ a, u.samprate = p.samprate) →
          Option.Rel AlikeAfter
            (a.map (fun u => { u with i := s.i + 1 }))
            ((a.map
              (fun u =>
                u.rebooked t.i p.samprate g f)).map
                (fun u => { u with i := t.i + 1 })) := by
    intro a g f hRate
    cases a with
    | none => exact Option.Rel.none
    | some u =>
        refine Option.Rel.some ⟨⟨rfl, rfl, rfl, rfl, rfl, ?_⟩, ?_⟩
        · simp
        · exact congrArg deltaOf (hRate u rfl).symm
  by_cases hNext : 0 < s.i
  · have hNext' : 0 < t.i := hAlike.started.mpr hNext
    have hState :
        { t with samprate := p.samprate } =
          s₁.rebooked t.i p.samprate t.gapcount
            t.nfillMax := by
      rw [hAlike.eq_rebooked]
      rfl
    rcases nextPacket_rebooked host p s₁ t.i p.samprate
        t.gapcount t.nfillMax with ⟨g, f, hRun⟩
    rw [sacBody_next host p hNext, sacBody_next host p hNext',
      hState, hRun]
    apply hMap
    intro u hu
    exact (nextPacket_keeps host p hu).2.1
  · have hFirst : s.i = 0 := by omega
    have hFirst' : t.i = 0 := by
      have hIff := hAlike.started
      omega
    have hState :
        { t with
          samprate := p.samprate
          header := enrichSacStarttime t.header p.starttime } =
          ({ s₁ with
            header :=
              enrichSacStarttime s.header
                p.starttime }).rebooked
            t.i p.samprate t.gapcount t.nfillMax := by
      rw [hAlike.eq_rebooked]
      rfl
    rw [sacBody_first host p hFirst, sacBody_first host p hFirst',
      hState, storePacket_rebooked]
    apply hMap
    intro u hu
    exact (storePacket_keeps host p hu).2.1

end

/-
  Alike states stay alike over the same packets, and end
  with one period if there is a packet to take it from.
-/
theorem foldlM_alike
    [Rounding]
    (host : ByteOrder)
    {s t : SacState}
    (packets : List Packet)
    (h : Alike s t)
    (hRate :
      packets = [] →
        deltaOf t.samprate = deltaOf s.samprate) :
    Option.Rel AlikeAfter
      (packets.foldlM (sacBody host) s)
      (packets.foldlM (sacBody host) t) := by
  induction packets generalizing s t with
  | nil => exact Option.Rel.some ⟨h, hRate rfl⟩
  | cons p packets ih =>
      apply ForLoop.foldlM_cons_rel (sacBody_alike host p h)
      intro u v hUv
      exact ih hUv.alike (fun _ => hUv.delta)

/- And the files written from them are the same. -/
theorem sacFinish_alike
    [Rounding]
    (outpath : List UInt8)
    (n : TraceNode)
    {s t : SacState}
    (h : AlikeAfter s t) :
    sacFinish outpath n t = sacFinish outpath n s := by
  have hHeader : finishHeader t = finishHeader s := by
    have hDelta := h.delta
    unfold deltaOf at hDelta
    unfold finishHeader
    rw [h.alike.header, h.alike.nsampTrace, hDelta]
  unfold sacFinish
  rw [hHeader, h.alike.words]

/- So are the outputs of two runs that end alike. -/
theorem finish_of_rel
    [Rounding]
    (outpath : List UInt8)
    (n : TraceNode)
    {a b : Option SacState} :
    Option.Rel AlikeAfter a b →
      (match a with
        | none => none
        | some s => sacFinish outpath n s) =
        match b with
        | none => none
        | some t => sacFinish outpath n t := by
  intro hRel
  cases hRel with
  | none => rfl
  | some hEnd => exact (sacFinish_alike outpath n hEnd).symm

------------------------------------------------------------
-- States That Runs Reach
------------------------------------------------------------

/-
  The index counts the packets, the count of samples is an
  `int`, and the words lie within the buffer.
-/
structure Reached
    (done : List Packet)
    (s : SacState) : Prop where
  index : s.i = done.length
  low : -2 ^ 31 ≤ s.nsampTrace
  high : s.nsampTrace < 2 ^ 31
  fits : s.Fits

section

variable {host : ByteOrder} {p : Packet} {s t : SacState}

/- The part of this that is not the index. -/
def SacState.Bounded (s : SacState) : Prop :=
  -2 ^ 31 ≤ s.nsampTrace ∧ s.nsampTrace < 2 ^ 31 ∧ s.Fits

theorem storePacket_bounded
    (hBounded : s.Bounded)
    (hStore : storePacket host p s = some t) :
    t.Bounded := by
  rcases storePacket_inv host p hStore with
    ⟨_, rfl⟩ | ⟨_, w, capacity, rfl, hFits⟩
  · exact hBounded
  · refine ⟨wrap32_lower _, wrap32_upper _, ?_⟩
    have hRoom := hFits hBounded.2.2
    unfold SacState.Fits
    simpa [advance] using hRoom

theorem fillGap_bounded
    (n : Int)
    (hFits : s.Fits) :
    (fillGap n s).Bounded := by
  refine ⟨wrap32_lower _, wrap32_upper _, ?_⟩
  unfold SacState.Fits at hFits ⊢
  simp only [fillGap, List.length_append, List.length_replicate,
    SacState.room]
  omega

theorem roomForGap_fits
    {n : Int}
    (hFits : s.Fits)
    (hRoom : roomForGap n s = some t) :
    t.Fits := by
  rcases roomForGap_keeps hRoom with rfl | rfl
  · exact hFits
  · unfold SacState.Fits at hFits ⊢
    simp only [reallocOutbuf]
    omega

theorem nextPacket_bounded
    [Rounding]
    (hBounded : s.Bounded)
    (hNext : nextPacket host p s = some t) :
    t.Bounded := by
  rcases nextPacket_cases hNext with
    ⟨rfl, _⟩ | ⟨_, _, u, hRoom, hStore⟩ | ⟨_, _, hStore⟩
  · exact hBounded
  · have hFits := roomForGap_fits hBounded.2.2 hRoom
    exact storePacket_bounded (fillGap_bounded _ hFits) hStore
  · exact storePacket_bounded hBounded hStore

theorem sacBody_bounded
    [Rounding]
    (hBounded : s.Bounded)
    (hBody : sacBody host s p = some t) :
    t.Bounded := by
  rcases sacBody_cases hBody with
    ⟨u, rfl, ⟨_, hStore⟩ | ⟨_, hNext⟩⟩
  · change u.Bounded
    exact storePacket_bounded
      (s := { s with
        samprate := p.samprate
        header := enrichSacStarttime s.header p.starttime })
      hBounded hStore
  · change u.Bounded
    exact nextPacket_bounded
      (s := { s with samprate := p.samprate })
      hBounded hNext

theorem sacInit_bounded
    (now : Int)
    (n : TraceNode) :
    (sacInit now n).Bounded :=
  ⟨by simp [sacInit], by simp [sacInit], Nat.zero_le _⟩

theorem reached_step
    [Rounding]
    {done : List Packet}
    (hReached : Reached done s)
    (hBody : sacBody host s p = some t) :
    Reached (done ++ [p]) t := by
  have hBounded : s.Bounded :=
    ⟨hReached.low, hReached.high, hReached.fits⟩
  have hAfter := sacBody_bounded hBounded hBody
  refine ⟨?_, hAfter.1, hAfter.2.1, hAfter.2.2⟩
  simp [index_of_sacBody hBody, hReached.index]

theorem reached_of_run
    [Rounding]
    {now : Int}
    {n : TraceNode}
    {packets : List Packet}
    (hRun :
      packets.foldlM (sacBody host) (sacInit now n) = some s) :
    Reached packets s := by
  refine ForLoop.foldlM_prefix_of_some Reached packets
    ⟨rfl, by simp [sacInit], by simp [sacInit], ?_⟩ ?_ hRun
  · exact Nat.zero_le _
  · intro pre x post u v _ hReached hBody
    exact reached_step hReached hBody

end

------------------------------------------------------------
-- Packets Passed Over
------------------------------------------------------------

/-
  The packet's samples are not stored: a full duplicate, a
  bogus gap, or a width that the copy does not know.
-/
def PassedOver [Rounding] (s : SacState) (p : Packet) : Prop :=
  p.format = none ∨
    (0 < s.i ∧
      ((GapBefore s p ∧ Bogus s (nfill s p)) ∨
        (¬ GapBefore s p ∧ Duplicated s p)))

/-
  Nothing is done for the packet before that: it is not the
  first one, and no gap is filled or made room for.
-/
def Untouched [Rounding] (s : SacState) (p : Packet) : Prop :=
  0 < s.i ∧
    (GapBefore s p → ¬ Bogus s (nfill s p) →
      nfill s p = 0 ∧ newsize s 0 ≤ s.buffersiz)

section

variable {host : ByteOrder} {p : Packet} {s : SacState}

theorem storePacket_of_unknown
    (hFormat : p.format = none) :
    storePacket host p s = some s := by
  simp [storePacket, enrichSacSamps, hFormat]

/- A fill of nothing changes only the gap's bookkeeping. -/
theorem fillGap_zero
    (hLow : -2 ^ 31 ≤ s.nsampTrace)
    (hHigh : s.nsampTrace < 2 ^ 31) :
    fillGap 0 s =
      s.rebooked s.i s.samprate (s.gapcount + 1)
        (max s.nfillMax 0) := by
  have hWrap : wrap32 s.nsampTrace = s.nsampTrace :=
    wrap32_of_mem hLow hHigh
  simp [fillGap, SacState.rebooked, hWrap]

/- An untouched packet leaves only its sample rate. -/
theorem sacBody_passedOver
    [Rounding]
    (host : ByteOrder)
    (hLow : -2 ^ 31 ≤ s.nsampTrace)
    (hHigh : s.nsampTrace < 2 ^ 31)
    (hPassed : PassedOver s p)
    (hUntouched : Untouched s p) :
    ∃ t,
      sacBody host s p = some t ∧ Alike s t ∧
        t.samprate = p.samprate := by
  rcases hUntouched with ⟨hNext, hGapless⟩
  let s₁ : SacState := { s with samprate := p.samprate }
  have hAfter :
      ∃ g f,
        nextPacket host p s₁ =
          some (s₁.rebooked s.i p.samprate g f) := by
    by_cases hGap : GapBefore s p
    · have hGap₁ : GapBefore s₁ p := hGap
      by_cases hBogus : Bogus s (nfill s p)
      · have hBogus₁ : Bogus s₁ (nfill s₁ p) := hBogus
        exact ⟨s.gapcount, s.nfillMax,
          nextPacket_bogus host hGap₁ hBogus₁⟩
      · have hFormat : p.format = none := by
          rcases hPassed with hFormat | ⟨_, ⟨_, h⟩ | ⟨h, _⟩⟩
          · exact hFormat
          · exact (hBogus h).elim
          · exact (h hGap).elim
        have hBogus₁ : ¬ Bogus s₁ (nfill s₁ p) := hBogus
        rcases hGapless hGap hBogus with ⟨hZero, hRoom⟩
        have hZero₁ : nfill s₁ p = 0 := hZero
        have hRoom₁ : roomForGap (nfill s₁ p) s₁ = some s₁ := by
          rw [hZero₁]
          exact if_neg (not_lt.mpr hRoom)
        refine ⟨s.gapcount + 1, max s.nfillMax 0, ?_⟩
        rw [nextPacket_gap host hGap₁ hBogus₁ hRoom₁,
          storePacket_of_unknown hFormat, hZero₁]
        exact congrArg some (fillGap_zero (s := s₁) hLow hHigh)
    · have hGap₁ : ¬ GapBefore s₁ p := hGap
      refine ⟨s.gapcount, s.nfillMax, ?_⟩
      by_cases hDup : Duplicated s p
      · have hDup₁ : Duplicated s₁ p := hDup
        exact nextPacket_duplicated host hGap₁ hDup₁
      · have hFormat : p.format = none := by
          rcases hPassed with hFormat | ⟨_, ⟨h, _⟩ | ⟨_, h⟩⟩
          · exact hFormat
          · exact (hGap h).elim
          · exact (hDup h).elim
        have hDup₁ : ¬ Duplicated s₁ p := hDup
        rw [nextPacket_stored host hGap₁ hDup₁,
          storePacket_of_unknown hFormat]
        rfl
  rcases hAfter with ⟨g, f, hAfter⟩
  refine
    ⟨{ s₁.rebooked s.i p.samprate g f with i := s.i + 1 }, ?_,
      ⟨rfl, rfl, rfl, rfl, rfl, ?_⟩, rfl⟩
  · rw [sacBody_next host p hNext]
    change (nextPacket host p s₁).map _ = _
    rw [hAfter]
    rfl
  · exact iff_of_true (Nat.succ_pos _) hNext

end

end TankConvertor
