import TankConvertor.Sac.Concat

/-
  Packets that overlap the ones before them.

  A packet that ends within the samples stored so far is left
  out as a duplicate; one that ends after them is stored as a
  whole, with the samples that are there already.

  Key definitions include:
    * `GridTime`
    * `Overlapping`
    * `represented` and `instant`

  Key theorems include:
    * `represented_snoc`
    * `covered_step`
    * `instants_nodup_iff`
    * `overlap_written_twice`
-/

------------------------------------------------------------
-- Times On A Grid
------------------------------------------------------------

namespace TankConvertor

attribute [local instance] Rounding.exact

/- A whole number of sample intervals away from `base`. -/
def GridTime (sr base t : ℚ) : Prop :=
  ∃ m : Int, t = base + m / sr

section Grid

variable {sr base a b : ℚ}

theorem GridTime.add
    (ha : GridTime sr base a)
    (j : Int) :
    GridTime sr base (a + j / sr) := by
  rcases ha with ⟨m, rfl⟩
  refine ⟨m + j, ?_⟩
  push_cast
  ring

/- The next time on the grid is one interval later. -/
theorem GridTime.next
    (hPos : 0 < sr)
    (ha : GridTime sr base a)
    (hb : GridTime sr base b)
    (hLt : a < b) :
    a + 1 / sr ≤ b := by
  rcases ha with ⟨m, rfl⟩
  rcases hb with ⟨n, rfl⟩
  have hQuot : (m : ℚ) / sr < n / sr := by linarith
  have hInt : m + 1 ≤ n := by
    have hCast : (m : ℚ) < n :=
      (div_lt_div_iff_of_pos_right hPos).mp hQuot
    exact_mod_cast hCast
  have hCast : (m : ℚ) + 1 ≤ n := by
    exact_mod_cast hInt
  have hDiv : ((m : ℚ) + 1) / sr ≤ n / sr :=
    div_le_div_of_nonneg_right hCast hPos.le
  rw [add_div] at hDiv
  linarith

/- From a time on the grid on, whole steps reach the others. -/
theorem GridTime.steps
    (hPos : 0 < sr)
    (ha : GridTime sr base a)
    (hb : GridTime sr base b)
    (hLe : a ≤ b) :
    ∃ j : Nat, b = a + j / sr := by
  rcases ha with ⟨m, rfl⟩
  rcases hb with ⟨n, rfl⟩
  have hQuot : (m : ℚ) / sr ≤ n / sr := by linarith
  have hInt : m ≤ n := by
    have hCast : (m : ℚ) ≤ n :=
      (div_le_div_iff_of_pos_right hPos).mp hQuot
    exact_mod_cast hCast
  refine ⟨(n - m).toNat, ?_⟩
  have hCast : (((n - m).toNat : Nat) : ℚ) = n - m := by
    exact_mod_cast Int.toNat_of_nonneg (by omega)
  rw [hCast]
  ring

end Grid

------------------------------------------------------------
-- The Samples Of A Packet
------------------------------------------------------------

/- A sample of a packet: the packet and the sample's index. -/
abbrev SampleOf := Packet × Nat

/- The time of a sample. -/
def instant (w : SampleOf) : ℚ :=
  w.1.starttime.toRat + w.2 / w.1.samprate.toRat

/- The word that a sample is written as. -/
def SampleOf.word (host : ByteOrder) (w : SampleOf) : SacWord :=
  (w.1.words host).getD w.2 0

/- The first `n` samples of a packet. -/
def Packet.samples (p : Packet) (n : Nat) : List SampleOf :=
  (List.range n).map (fun j => (p, j))

section Samples

variable {sr base : ℚ}
variable {p : Packet}

theorem Packet.mem_samples_iff
    {n : Nat}
    {w : SampleOf} :
    w ∈ p.samples n ↔ ∃ j < n, w = (p, j) := by
  simp [Packet.samples, eq_comm]

theorem Packet.IsWellFormed.samples_words
    (host : ByteOrder)
    (h : p.IsWellFormed) :
    (p.samples p.nsamp.toNat).map (SampleOf.word host) =
      p.words host := by
  have hLen := h.length_words host
  apply List.ext_getElem
  · simp [Packet.samples, hLen]
  · intro j hj hj'
    simp [Packet.samples, SampleOf.word,
      List.getElem?_eq_getElem hj']

theorem Packet.Steady.instant_eq
    (hp : p.Steady sr)
    (j : Nat) :
    instant (p, j) = p.starttime.toRat + j / sr := by
  simp [instant, hp.samprate]

theorem Packet.IsWellFormed.nsamp_eq
    (h : p.IsWellFormed) :
    ((p.nsamp.toNat : Nat) : ℚ) = p.nsamp := by
  rcases h with ⟨k, n, h⟩
  rw [h.nsamp, Int.toNat_natCast]
  rfl

/- No sample is later than the end time. -/
theorem Packet.Steady.instant_le
    (hPos : 0 < sr)
    (hp : p.Steady sr)
    {j : Nat}
    (hj : j < p.nsamp.toNat) :
    instant (p, j) ≤ p.endtime.toRat := by
  have hCount : (j : ℚ) ≤ (p.nsamp : ℚ) - 1 := by
    rw [← hp.wellFormed.nsamp_eq]
    have hCast : ((j + 1 : Nat) : ℚ) ≤ p.nsamp.toNat :=
      Nat.cast_le.mpr hj
    push_cast at hCast
    linarith
  have hSpan : (j : ℚ) / sr ≤ ((p.nsamp : ℚ) - 1) / sr :=
    div_le_div_of_nonneg_right hCount hPos.le
  rw [hp.instant_eq, hp.last]
  linarith

theorem Packet.Steady.start_le_instant
    (hPos : 0 < sr)
    (hp : p.Steady sr)
    (j : Nat) :
    p.starttime.toRat ≤ instant (p, j) := by
  have hSpan : 0 ≤ (j : ℚ) / sr :=
    div_nonneg (Nat.cast_nonneg j) hPos.le
  rw [hp.instant_eq]
  linarith

/- A packet has no instant twice. -/
theorem Packet.Steady.nodup_instants
    (hPos : 0 < sr)
    (hp : p.Steady sr)
    (n : Nat) :
    ((p.samples n).map instant).Nodup := by
  unfold Packet.samples
  rw [List.map_map]
  apply List.Nodup.map _ List.nodup_range
  intro i j hij
  simp only [Function.comp, hp.instant_eq] at hij
  have hDiv : (i : ℚ) / sr = j / sr := by linarith
  have hCast : (i : ℚ) = j :=
    (div_left_inj' hPos.ne').mp hDiv
  exact_mod_cast hCast

theorem Packet.Steady.gridTime_stop
    (hp : p.Steady sr)
    (hStart : GridTime sr base p.starttime.toRat) :
    GridTime sr base p.endtime.toRat := by
  have hStop := hStart.add (p.nsamp - 1)
  rw [hp.last]
  exact_mod_cast hStop

/- The instants from the start to the end time are all there. -/
theorem Packet.Steady.instant_of_between
    (hPos : 0 < sr)
    (hp : p.Steady sr)
    (hStart : GridTime sr base p.starttime.toRat)
    {t : ℚ}
    (ht : GridTime sr base t)
    (hLow : p.starttime.toRat ≤ t)
    (hHigh : t ≤ p.endtime.toRat) :
    ∃ w ∈ p.samples p.nsamp.toNat, instant w = t := by
  rcases hStart.steps hPos ht hLow with ⟨j, rfl⟩
  have hDiv : (j : ℚ) / sr ≤ ((p.nsamp : ℚ) - 1) / sr := by
    rw [hp.last] at hHigh
    linarith
  have hCast : (j : ℚ) ≤ (p.nsamp : ℚ) - 1 :=
    (div_le_div_iff_of_pos_right hPos).mp hDiv
  have hj : j < p.nsamp.toNat := by
    have hInt : (j : Int) ≤ p.nsamp - 1 := by
      exact_mod_cast hCast
    omega
  exact ⟨(p, j), Packet.mem_samples_iff.mpr ⟨j, hj, rfl⟩,
    hp.instant_eq j⟩

end Samples

------------------------------------------------------------
-- Traces With Overlaps
------------------------------------------------------------

/- `q` comes after `p` and leaves no gap. -/
structure Packet.Follows (sr : ℚ) (p q : Packet) : Prop where
  start : p.starttime.toRat ≤ q.starttime.toRat
  stop : p.endtime.toRat ≤ q.endtime.toRat
  noGap : q.starttime.toRat ≤ p.endtime.toRat + 1 / sr

/-
  A trace at one sample rate and on one grid, with overlaps
  of any length and no gap.
-/
structure Overlapping
    (sr : ℚ)
    (packets : List Packet) : Prop where
  steady : ∀ p ∈ packets, p.Steady sr
  grid :
    ∃ base, ∀ p ∈ packets, GridTime sr base p.starttime.toRat
  chain : packets.IsChain (Packet.Follows sr)

/- `q` ends no later than `p`, or starts after its end. -/
def Packet.Apart (p q : Packet) : Prop :=
  q.endtime.toRat ≤ p.endtime.toRat ∨
    p.endtime.toRat < q.starttime.toRat

------------------------------------------------------------
-- What The Words Stand For
------------------------------------------------------------

/- The samples that an iteration adds to the words. -/
def added
    (host : ByteOrder)
    (s : SacState)
    (p : Packet) :
    List SampleOf :=
  match sacBody host s p with
  | none => []
  | some s' => p.samples (s'.words.length - s.words.length)

/- The samples that the words added by the loop stand for. -/
def represented
    (host : ByteOrder) :
    SacState → List Packet → List SampleOf
| _, [] => []
| s, p :: packets =>
    added host s p ++
      match sacBody host s p with
      | none => []
      | some s' => represented host s' packets

theorem represented_snoc
    {host : ByteOrder}
    {pre : List Packet}
    {s t : SacState}
    (p : Packet)
    (hRun : pre.foldlM (sacBody host) s = some t) :
    represented host s (pre ++ [p]) =
      represented host s pre ++ added host t p := by
  induction pre generalizing s with
  | nil =>
      obtain rfl : s = t := Option.some.inj hRun
      simp only [List.nil_append, represented]
      cases sacBody host s p <;> simp
  | cons q pre ih =>
      rcases ForLoop.foldlM_cons_eq_some.mp hRun with
        ⟨u, hBody, hRest⟩
      simp only [List.cons_append, represented, hBody,
        List.append_assoc]
      rw [ih hRest]

/- What is added by storing a packet, and by leaving it out. -/
theorem Stores.added_eq
    {host : ByteOrder}
    {s s' : SacState}
    {p : Packet}
    (hWell : p.IsWellFormed)
    (hBody : sacBody host s p = some s')
    (hStores : Stores host p s s') :
    added host s p = p.samples p.nsamp.toNat := by
  have hLen := hWell.length_words host
  simp only [added, hBody, hStores.words, List.length_append,
    hLen, Nat.add_sub_cancel_left]

/- An iteration that leaves its packet out. -/
theorem added_of_leftOut
    {host : ByteOrder}
    {s s' : SacState}
    {p : Packet}
    (hBody : sacBody host s p = some s')
    (hWords : s'.words = s.words) :
    added host s p = [] := by
  simp [added, hBody, hWords, Packet.samples]

------------------------------------------------------------
-- One Iteration
------------------------------------------------------------

/-
  The state after `pre`: the words are the samples that they
  stand for, up to the last end time; an instant comes twice
  just when a packet was not apart from the one before it.
-/
structure Covered
    (host : ByteOrder)
    (s₀ : SacState)
    (pre : List Packet)
    (s : SacState) : Prop where
  run : pre.foldlM (sacBody host) s₀ = some s
  i : s.i = pre.length
  words :
    s.words =
      (represented host s₀ pre).map (SampleOf.word host)
  count : s.nsampTrace = wrap32 s.words.length
  fits : s.Fits
  small : s.capacity < 2 ^ 32
  finite : pre ≠ [] → s.endtime.IsFinite
  endtime :
    ∀ q ∈ pre.getLast?, s.endtime.toRat = q.endtime.toRat
  upto :
    ∀ w ∈ represented host s₀ pre,
      instant w ≤ s.endtime.toRat
  last :
    ∀ q ∈ pre.getLast?,
      (∃ w ∈ represented host s₀ pre,
          instant w = s.endtime.toRat) ∨
        s.endtime.toRat < q.starttime.toRat
  once :
    ((represented host s₀ pre).map instant).Nodup ↔
      pre.IsChain Packet.Apart

theorem covered_init
    (host : ByteOrder)
    (now : Int)
    (n : TraceNode) :
    Covered host (sacInit now n) [] (sacInit now n) where
  run := rfl
  i := rfl
  words := rfl
  count := (gathered_init host now n).count
  fits := (gathered_init host now n).fits
  small := (gathered_init host now n).small
  finite := fun hNe => (hNe rfl).elim
  endtime := by simp
  upto := by simp [represented]
  last := by simp
  once := by simp [represented]

/- The last packet before `p`, and what `p` is to it. -/
theorem Overlapping.last_follows
    {sr : ℚ}
    {pre post : List Packet}
    {p : Packet}
    (h : Overlapping sr (pre ++ p :: post)) :
    ∀ q ∈ pre.getLast?, q.Steady sr ∧ q.Follows sr p := by
  intro q hq
  have hSplit := List.isChain_append.mp h.chain
  have hMem : q ∈ pre ++ p :: post :=
    List.mem_append_left _ (List.mem_of_getLast? hq)
  exact ⟨h.steady q hMem, hSplit.2.2 q hq p (by simp)⟩

section Step

variable {host : ByteOrder}
variable {sr : ℚ}
variable {s₀ s s' : SacState}
variable {pre post : List Packet}
variable {p q : Packet}

/- Later packets stand behind no gap. -/
theorem Covered.noGap
    (hPos : 0 < sr)
    (hOver : Overlapping sr (pre ++ p :: post))
    (hCovered : Covered host s₀ pre s)
    (hq : q ∈ pre.getLast?) :
    ¬ GapBefore s p := by
  have hp := hOver.steady p (by simp)
  have hFollows := (hOver.last_follows q hq).2
  have hFinite : s.endtime.IsFinite := by
    apply hCovered.finite
    rintro rfl
    simp at hq
  have hNoGap := hFollows.noGap
  have hInterval : 0 < 1 / sr := one_div_pos.mpr hPos
  have hTwo : 2 / sr = 1 / sr + 1 / sr := by
    rw [← add_div]
    norm_num
  rw [gapBefore_iff hPos hFinite hp.timed, hCovered.endtime q hq, hTwo]
  linarith

/- They are duplicates unless they end after the last one. -/
theorem Covered.duplicated_iff
    (hPos : 0 < sr)
    (hOver : Overlapping sr (pre ++ p :: post))
    (hCovered : Covered host s₀ pre s)
    (hq : q ∈ pre.getLast?) :
    Duplicated s p ↔ p.endtime.toRat = q.endtime.toRat := by
  have hp := hOver.steady p (by simp)
  have hLast := hOver.last_follows q hq
  rcases hOver.grid with ⟨base, hGrid⟩
  have hMem : q ∈ pre ++ p :: post :=
    List.mem_append_left _ (List.mem_of_getLast? hq)
  have hFinite : s.endtime.IsFinite := by
    apply hCovered.finite
    rintro rfl
    simp at hq
  have hInterval : 0 < 1 / sr := one_div_pos.mpr hPos
  rw [TankConvertor.duplicated_iff hPos hFinite hp.timed,
    hCovered.endtime q hq]
  constructor
  · intro hLt
    by_contra hNe
    have hAfter : q.endtime.toRat < p.endtime.toRat :=
      lt_of_le_of_ne hLast.2.stop (Ne.symm hNe)
    have hStep :=
      (hLast.1.gridTime_stop (hGrid q hMem)).next hPos
        (hp.gridTime_stop (hGrid p (by simp))) hAfter
    linarith
  · intro hEq
    linarith

/- A packet that is left out adds nothing. -/
theorem Covered.leftOut
    (hPos : 0 < sr)
    (hOver : Overlapping sr (pre ++ p :: post))
    (hCovered : Covered host s₀ pre s)
    (hq : q ∈ pre.getLast?)
    (hSame : p.endtime.toRat = q.endtime.toRat)
    (hBody : sacBody host s p = some s') :
    Covered host s₀ (pre ++ [p]) s' := by
  have hFollows := (hOver.last_follows q hq).2
  have hNe : pre ≠ [] := by
    rintro rfl
    simp at hq
  have hNext : 0 < s.i := by
    rw [hCovered.i]
    exact List.length_pos_of_ne_nil hNe
  have hGap := hCovered.noGap hPos hOver hq
  have hDup := (hCovered.duplicated_iff hPos hOver hq).mpr hSame
  have hGap' : ¬ GapBefore { s with samprate := p.samprate } p :=
    hGap
  have hDup' : Duplicated { s with samprate := p.samprate } p :=
    hDup
  have hLeft :
      sacBody host s p =
        some { s with samprate := p.samprate, i := s.i + 1 } := by
    rw [sacBody_next host p hNext,
      nextPacket_duplicated host hGap' hDup']
    rfl
  obtain rfl := Option.some.inj (hBody.symm.trans hLeft)
  have hAdded : added host s p = [] :=
    added_of_leftOut hLeft rfl
  have hRep :
      represented host s₀ (pre ++ [p]) =
        represented host s₀ pre := by
    rw [represented_snoc p hCovered.run, hAdded,
      List.append_nil]
  have hEnd := hCovered.endtime q hq
  constructor
  · exact (ForLoop.foldlM_snoc hCovered.run).trans hBody
  · simp [hCovered.i]
  · rw [hRep]
    exact hCovered.words
  · exact hCovered.count
  · exact hCovered.fits
  · exact hCovered.small
  · exact fun _ => hCovered.finite hNe
  · intro r hr
    obtain rfl : p = r := by simpa using hr
    exact hEnd.trans hSame.symm
  · rw [hRep]
    exact hCovered.upto
  · intro r hr
    obtain rfl : p = r := by simpa using hr
    rw [hRep]
    refine (hCovered.last q hq).imp_right ?_
    intro hBefore
    exact hBefore.trans_le hFollows.start
  · rw [hRep, hCovered.once, List.isChain_append]
    have hApart : q.Apart p := Or.inl hSame.le
    have hEnds :
        ∀ x ∈ pre.getLast?, ∀ y ∈ [p].head?, x.Apart y := by
      intro x hx y hy
      obtain rfl : p = y := by simpa using hy
      obtain rfl := Option.mem_unique hx hq
      exact hApart
    simp only [List.isChain_singleton, true_and]
    exact (and_iff_left hEnds).symm

/- Samples stored repeat an instant unless they are apart. -/
theorem Covered.disjoint_iff
    (hPos : 0 < sr)
    (hOver : Overlapping sr (pre ++ p :: post))
    (hCovered : Covered host s₀ pre s)
    (hAfter :
      ∀ q ∈ pre.getLast?, q.endtime.toRat < p.endtime.toRat) :
    (∀ a ∈ (represented host s₀ pre).map instant,
        ∀ b ∈ (p.samples p.nsamp.toNat).map instant, a ≠ b) ↔
      ∀ q ∈ pre.getLast?, q.Apart p := by
  have hp := hOver.steady p (by simp)
  constructor
  · intro hDisjoint q hq
    by_contra hApart
    rcases not_or.mp hApart with ⟨hEnds, hStarts⟩
    have hLast := hOver.last_follows q hq
    have hEnd := hCovered.endtime q hq
    rcases hOver.grid with ⟨base, hGrid⟩
    have hMem : q ∈ pre ++ p :: post :=
      List.mem_append_left _ (List.mem_of_getLast? hq)
    rcases hp.instant_of_between hPos (hGrid p (by simp))
        (hLast.1.gridTime_stop (hGrid q hMem))
        (not_lt.mp hStarts) hLast.2.stop with
      ⟨b, hb, hbEnd⟩
    rcases hCovered.last q hq with ⟨a, ha, haEnd⟩ | hBefore
    · apply hDisjoint (instant a) (List.mem_map_of_mem ha)
        (instant b) (List.mem_map_of_mem hb)
      rw [haEnd, hbEnd, hEnd]
    · have hStart := hLast.2.start
      linarith
  · intro hApart a ha b hb
    rcases List.mem_map.mp ha with ⟨v, hv, rfl⟩
    rcases List.mem_map.mp hb with ⟨w, hw, rfl⟩
    rcases Packet.mem_samples_iff.mp hw with ⟨j, hj, rfl⟩
    cases hLast : pre.getLast? with
    | none =>
        rw [List.getLast?_eq_none_iff.mp hLast] at hv
        simp [represented] at hv
    | some q =>
        have hEnd := hCovered.endtime q hLast
        have hUpto := hCovered.upto v hv
        have hStart := hp.start_le_instant hPos j
        rcases hApart q hLast with hEnds | hStarts
        · have hLater := hAfter q hLast
          linarith
        · linarith

/- A packet that is stored adds all of its samples. -/
theorem Covered.stored
    (hPos : 0 < sr)
    (hOver : Overlapping sr (pre ++ p :: post))
    (hCovered : Covered host s₀ pre s)
    (hAfter :
      ∀ q ∈ pre.getLast?, q.endtime.toRat < p.endtime.toRat)
    (hBody : sacBody host s p = some s') :
    Covered host s₀ (pre ++ [p]) s' := by
  have hp := hOver.steady p (by simp)
  have hPlain : 0 < s.i → ¬ GapBefore s p ∧ ¬ Duplicated s p := by
    intro hNext
    have hNe : pre ≠ [] := by
      rintro rfl
      rw [hCovered.i] at hNext
      exact hNext.ne rfl
    have hLast := List.getLast?_eq_some_getLast hNe
    refine ⟨hCovered.noGap hPos hOver hLast, ?_⟩
    rw [hCovered.duplicated_iff hPos hOver hLast]
    exact (hAfter _ hLast).ne'
  have hStores :=
    sacBody_stores hp.wellFormed hCovered.fits hPlain hBody
  have hRep :
      represented host s₀ (pre ++ [p]) =
        represented host s₀ pre ++ p.samples p.nsamp.toNat := by
    rw [represented_snoc p hCovered.run,
      hStores.added_eq hp.wellFormed hBody]
  have hEnd : s'.endtime.toRat = p.endtime.toRat :=
    congrArg ExtRat.toRat hStores.endtime
  constructor
  · exact (ForLoop.foldlM_snoc hCovered.run).trans hBody
  · simp [hStores.i, hCovered.i]
  · rw [hRep, List.map_append,
      hp.wellFormed.samples_words, hStores.words,
      hCovered.words]
  · have hCount := hStores.count
    have hLen := hp.wellFormed.length_words host
    rcases hp.wellFormed with ⟨k, n, h⟩
    rw [hCovered.count, h.nsamp, wrap32_wrap32_add] at hCount
    rw [hStores.words, List.length_append, hLen, h.nsamp]
    exact_mod_cast hCount
  · exact hStores.fits
  · exact hStores.small hCovered.small
  · intro _
    rw [hStores.endtime]
    exact hp.stop
  · intro r hr
    obtain rfl : p = r := by simpa using hr
    exact hEnd
  · rw [hRep, hEnd]
    intro w hw
    rcases List.mem_append.mp hw with hw | hw
    · have hUpto := hCovered.upto w hw
      cases hLast : pre.getLast? with
      | none =>
          rw [List.getLast?_eq_none_iff.mp hLast] at hw
          simp [represented] at hw
      | some q =>
          have hLater := hAfter q hLast
          rw [hCovered.endtime q hLast] at hUpto
          linarith
    · rcases Packet.mem_samples_iff.mp hw with ⟨j, hj, rfl⟩
      exact hp.instant_le hPos hj
  · intro r hr
    obtain rfl : p = r := by simpa using hr
    rw [hRep, hEnd]
    rcases hOver.grid with ⟨base, hGrid⟩
    have hStart := hGrid p (by simp)
    by_cases hSpan : p.starttime.toRat ≤ p.endtime.toRat
    · left
      rcases hp.instant_of_between hPos hStart
          (hp.gridTime_stop hStart) hSpan le_rfl with
        ⟨w, hw, hInstant⟩
      exact ⟨w, List.mem_append_right _ hw, hInstant⟩
    · exact Or.inr (not_le.mp hSpan)
  · rw [hRep, List.map_append, List.nodup_append,
      hCovered.disjoint_iff hPos hOver hAfter, hCovered.once,
      List.isChain_append]
    have hOnce := hp.nodup_instants hPos p.nsamp.toNat
    simp [hOnce]

theorem covered_step
    (hPos : 0 < sr)
    (hOver : Overlapping sr (pre ++ p :: post))
    (hCovered : Covered host s₀ pre s)
    (hBody : sacBody host s p = some s') :
    Covered host s₀ (pre ++ [p]) s' := by
  by_cases hSame :
      ∃ q ∈ pre.getLast?, p.endtime.toRat = q.endtime.toRat
  · rcases hSame with ⟨q, hq, hEq⟩
    exact hCovered.leftOut hPos hOver hq hEq hBody
  · apply hCovered.stored hPos hOver _ hBody
    intro q hq
    have hFollows := (hOver.last_follows q hq).2
    apply lt_of_le_of_ne hFollows.stop
    intro hEq
    exact hSame ⟨q, hq, hEq.symm⟩

end Step

------------------------------------------------------------
-- Whole Traces
------------------------------------------------------------

theorem covered_of_run
    {host : ByteOrder}
    {now : Int}
    {n : TraceNode}
    {sr : ℚ}
    (hPos : 0 < sr)
    {packets : List Packet}
    (hOver : Overlapping sr packets)
    {s : SacState}
    (hRun :
      packets.foldlM (sacBody host) (sacInit now n) = some s) :
    Covered host (sacInit now n) packets s := by
  apply ForLoop.foldlM_prefix_of_some
    (Covered host (sacInit now n)) packets
    (covered_init host now n) _ hRun
  intro pre p post t t' hSplit hCovered hBody
  have hOver' : Overlapping sr (pre ++ p :: post) :=
    hSplit ▸ hOver
  exact covered_step hPos hOver' hCovered hBody

/- A file holds all words when the count is theirs. -/
theorem data_of_counted
    {outpath : List UInt8}
    {n : TraceNode}
    {s : SacState}
    {f : SacFile}
    (hCount : s.nsampTrace = wrap32 s.words.length)
    (hFits : s.Fits)
    (hSmall : s.capacity < 2 ^ 32)
    (hFinish : sacFinish outpath n s = some f) :
    f.data = s.words := by
  have hWrap : wrap32 s.nsampTrace = wrap32 s.words.length := by
    have hTwice := wrap32_wrap32_add s.words.length 0
    rw [add_zero, add_zero] at hTwice
    rw [hCount, hTwice]
  unfold SacState.Fits at hFits
  simp only [sacFinish, writeSacFile, npts_finishHeader, hWrap]
    at hFinish
  split_ifs at hFinish with hIn
  obtain rfl := Option.some.inj hFinish
  have hAll : s.words.length ≤ (wrap32 s.words.length).toNat := by
    have hLow := hIn.1
    unfold wrap32 at hLow ⊢
    omega
  dsimp only
  rw [List.take_of_length_le hAll]

/-
  In a trace with overlaps the words written stand for
  samples of the trace, and no instant is among them twice
  just when every packet ends no later than the one before
  it or starts after its end.
-/
theorem instants_nodup_iff
    {host : ByteOrder}
    {now : Int}
    {outpath : List UInt8}
    {n : TraceNode}
    {sr : ℚ}
    (hPos : 0 < sr)
    {packets : List Packet}
    (hOver : Overlapping sr packets)
    {f : SacFile}
    (hFile :
      sacprocTraceOutput host now outpath n packets = some f) :
    f.data =
        (represented host (sacInit now n) packets).map
          (SampleOf.word host) ∧
      (((represented host (sacInit now n) packets).map
            instant).Nodup ↔
        packets.IsChain Packet.Apart) := by
  rcases exists_run_of_output hFile with ⟨s, hRun, hFinish⟩
  have hCovered := covered_of_run hPos hOver hRun
  have hData :=
    data_of_counted hCovered.count hCovered.fits
      hCovered.small hFinish
  exact ⟨hData.trans hCovered.words, hCovered.once⟩

------------------------------------------------------------
-- Two Packets
------------------------------------------------------------

/- Two 4-byte samples from time `t` on, one a second. -/
def Packet.double (t : Int) : Packet where
  nsamp := 2
  starttime := ExtRat.ofInt t
  endtime := ExtRat.ofInt (t + 1)
  samprate := ExtRat.ofInt 1
  text := zeroText .i4
  size := 72

theorem double_steady (t : Int) :
    (Packet.double t).Steady 1 where
  wellFormed :=
    ⟨.i4, 2, Packet.formatOf_zeroText .i4, rfl, by decide, rfl⟩
  samprate := rfl
  start := trivial
  stop := trivial
  last := by
    simp [Packet.double]
    norm_num

theorem doubles_overlapping
    (t : Int)
    (hLow : 0 ≤ t)
    (hHigh : t ≤ 2) :
    Overlapping 1 [Packet.double 0, Packet.double t] where
  steady := by
    intro p hp
    rcases List.mem_pair.mp hp with rfl | rfl
    · exact double_steady 0
    · exact double_steady t
  grid := by
    refine ⟨0, ?_⟩
    intro p hp
    rcases List.mem_pair.mp hp with rfl | rfl
    · exact ⟨0, by simp [Packet.double]⟩
    · exact ⟨t, by simp [Packet.double]⟩
  chain := by
    have hLow' : (0 : ℚ) ≤ t := by exact_mod_cast hLow
    have hHigh' : (t : ℚ) ≤ 2 := by exact_mod_cast hHigh
    simp only [List.isChain_cons_cons, List.isChain_singleton,
      and_true]
    constructor
    · simpa [Packet.double] using hLow'
    · simpa [Packet.double] using hLow'
    · simp only [Packet.double, ExtRat.toRat_ofInt]
      push_cast
      linarith

/- The file of two packets, the second from the end of the first. -/
theorem data_doubles :
    ∃ f,
      sacprocTraceOutput .little 0 [] freshNode
          [Packet.double 0, Packet.double 1] = some f ∧
        f.data =
          (represented .little (sacInit 0 freshNode)
            [Packet.double 0, Packet.double 1]).map
              (SampleOf.word .little) := by
  have hSame :
      (sacprocTraceOutput .little 0 [] freshNode
        [Packet.double 0, Packet.double 1]).map
          SacFile.data =
        some
          ((represented .little (sacInit 0 freshNode)
            [Packet.double 0, Packet.double 1]).map
              (SampleOf.word .little)) := by
    decide +kernel
  rcases Option.map_eq_some_iff.mp hSame with ⟨f, hf, hData⟩
  exact ⟨f, hf, hData⟩

theorem instants_doubles :
    (represented .little (sacInit 0 freshNode)
        [Packet.double 0, Packet.double 1]).map instant =
      [0, 1, 1, 2] := by
  decide +kernel

theorem instants_nodup_doubles :
    ∃ f : SacFile,
      f.data =
          (represented .little (sacInit 0 freshNode)
            [Packet.double 0, Packet.double 1]).map
              (SampleOf.word .little) ∧
        (((represented .little (sacInit 0 freshNode)
            [Packet.double 0, Packet.double 1]).map
              instant).Nodup ↔
          [Packet.double 0, Packet.double 1].IsChain
            Packet.Apart) := by
  rcases data_doubles with ⟨f, hf, -⟩
  exact ⟨f,
    instants_nodup_iff one_pos
      (doubles_overlapping 1 (by decide) (by decide)) hf⟩

/- Its first sample has the instant of the last one there. -/
theorem overlap_written_twice :
    Overlapping 1 [Packet.double 0, Packet.double 1] ∧
      (∃ f,
        sacprocTraceOutput .little 0 [] freshNode
            [Packet.double 0, Packet.double 1] = some f ∧
          f.data =
            (represented .little (sacInit 0 freshNode)
              [Packet.double 0, Packet.double 1]).map
                (SampleOf.word .little)) ∧
      ¬ ((represented .little (sacInit 0 freshNode)
          [Packet.double 0, Packet.double 1]).map
            instant).Nodup := by
  have hOver := doubles_overlapping 1 (by decide) (by decide)
  refine ⟨hOver, ?_, ?_⟩
  · exact data_doubles
  · rw [instants_doubles]
    decide

end TankConvertor
