import TankConvertor.TraceList.Model

/-
  What the segments of a trace list hold: every segment is a
  chain of records that follow one another within the
  tolerance, with their samples in that order, and every
  record is in one of them.

  Key theorems include:
    * `added_records_kept`
-/

------------------------------------------------------------
-- Segments
------------------------------------------------------------

namespace TankConvertor

/- The samples, each with the letter of its type. -/
def MsSamples.cells : MsSamples → List (UInt8 × Int)
| .int32s xs => xs.map (fun x => (ch 'i', x))
| .floats xs => xs.map (fun x => (ch 'f', (x.toNat : Int)))
| .doubles xs => xs.map (fun x : Nat => (ch 'd', (x : Int)))

theorem cells_append
    {a b c : MsSamples}
    (hAppend : a.append b = some c) :
    c.cells = a.cells ++ b.cells := by
  cases a <;> cases b <;>
    simp only [MsSamples.append, Option.some.injEq,
      reduceCtorEq] at hAppend
  all_goals
    subst hAppend
    exact List.map_append

theorem cells_of_length_zero
    {a : MsSamples}
    (hZero : a.length = 0) :
    a.cells = [] := by
  cases a <;>
    exact congrArg (List.map _) (List.length_eq_zero_iff.mp hZero)

/- Two records that follow one another, to one of the two. -/
def Joins (a b : TraceRecord) : Prop :=
  a.Fits (a.gap a.endtime b.starttime) ∨
    b.Fits (b.gap a.endtime b.starttime)

/- A segment that was made of the records `g`, in their order. -/
structure Built
    (s : MsSegment)
    (g : List TraceRecord) :
    Prop where
  ne_nil : g ≠ []
  cells : s.samples.cells = g.flatMap (·.samples.cells)
  start : ∀ r ∈ g.head?, r.starttime = s.starttime
  stop : ∀ r ∈ g.getLast?, r.endtime = s.endtime
  chain : g.IsChain Joins

theorem built_segment (r : TraceRecord) : Built r.segment [r] where
  ne_nil := List.cons_ne_nil r []
  cells := (List.append_nil _).symm
  start := by
    rintro _ ⟨⟩
    rfl
  stop := by
    rintro _ ⟨⟩
    rfl
  chain := .singleton r

/- One segment behind another. -/
theorem Built.join
    {s s₁ s₂ : MsSegment}
    {g₁ g₂ : List TraceRecord}
    (hFirst : Built s₁ g₁)
    (hThen : Built s₂ g₂)
    (hJoin :
      ∀ a ∈ g₁.getLast?, ∀ b ∈ g₂.head?, Joins a b)
    (hStart : s.starttime = s₁.starttime)
    (hStop : s.endtime = s₂.endtime)
    (hCells : s.samples.cells = s₁.samples.cells ++ s₂.samples.cells) :
    Built s (g₁ ++ g₂) where
  ne_nil := List.append_ne_nil_of_left_ne_nil hFirst.ne_nil g₂
  cells := by
    rw [hCells, hFirst.cells, hThen.cells, List.flatMap_append]
  start := by
    rw [List.head?_append_of_ne_nil g₁ hFirst.ne_nil, hStart]
    exact hFirst.start
  stop := by
    rw [List.getLast?_append_of_ne_nil g₁ hThen.ne_nil, hStop]
    exact hThen.stop
  chain := List.isChain_append.mpr
    ⟨hFirst.chain, hThen.chain, hJoin⟩

section Add

variable {r : TraceRecord}
variable {s s₂ s' : MsSegment}

theorem addAtEnd_spec (hAdd : s.addAtEnd r = some s') :
    s'.starttime = s.starttime ∧ s'.endtime = r.endtime ∧
      s'.samples.cells = s.samples.cells ++ r.samples.cells := by
  unfold MsSegment.addAtEnd at hAdd
  split at hAdd
  case isTrue hZero =>
    obtain rfl := Option.some.inj hAdd
    refine ⟨rfl, rfl, ?_⟩
    rw [cells_of_length_zero hZero, List.append_nil]
  case isFalse =>
    rcases Option.map_eq_some_iff.mp hAdd with
      ⟨samples, hAppend, rfl⟩
    exact ⟨rfl, rfl, cells_append hAppend⟩

theorem addAtStart_spec (hAdd : s.addAtStart r = some s') :
    s'.starttime = r.starttime ∧ s'.endtime = s.endtime ∧
      s'.samples.cells = r.samples.cells ++ s.samples.cells := by
  unfold MsSegment.addAtStart at hAdd
  split at hAdd
  case isTrue hZero =>
    obtain rfl := Option.some.inj hAdd
    refine ⟨rfl, rfl, ?_⟩
    rw [cells_of_length_zero hZero, List.nil_append]
  case isFalse =>
    rcases Option.map_eq_some_iff.mp hAdd with
      ⟨samples, hAppend, rfl⟩
    exact ⟨rfl, rfl, cells_append hAppend⟩

theorem addSeg_spec (hAdd : s.addSeg s₂ = some s') :
    s'.starttime = s.starttime ∧ s'.endtime = s₂.endtime ∧
      s'.samples.cells = s.samples.cells ++ s₂.samples.cells := by
  unfold MsSegment.addSeg at hAdd
  split at hAdd
  case isTrue hZero =>
    obtain rfl := Option.some.inj hAdd
    refine ⟨rfl, rfl, ?_⟩
    rw [cells_of_length_zero hZero, List.append_nil]
  case isFalse =>
    rcases Option.map_eq_some_iff.mp hAdd with
      ⟨samples, hAppend, rfl⟩
    exact ⟨rfl, rfl, cells_append hAppend⟩

variable {g g₂ : List TraceRecord}

theorem Built.addAtEnd
    (hBuilt : Built s g)
    (hFits : r.Fits (r.postgap s))
    (hAdd : s.addAtEnd r = some s') :
    Built s' (g ++ [r]) := by
  rcases addAtEnd_spec hAdd with ⟨hStart, hStop, hCells⟩
  refine hBuilt.join (built_segment r) ?_ hStart hStop hCells
  rintro a hLast _ ⟨⟩
  right
  rw [hBuilt.stop a hLast]
  exact hFits

theorem Built.addAtStart
    (hBuilt : Built s g)
    (hFits : r.Fits (r.pregap s))
    (hAdd : s.addAtStart r = some s') :
    Built s' (r :: g) := by
  rcases addAtStart_spec hAdd with ⟨hStart, hStop, hCells⟩
  refine (built_segment r).join hBuilt ?_ hStart hStop hCells
  rintro _ ⟨⟩ b hHead
  left
  rw [hBuilt.start b hHead]
  exact hFits

/- The record closes the gap between the two. -/
theorem Built.addBetween
    {s₁ : MsSegment}
    (hBuilt : Built s g)
    (hThen : Built s₂ g₂)
    (hFits : r.Fits (r.postgap s))
    (hFits₂ : r.Fits (r.pregap s₂))
    (hAdd : s.addAtEnd r = some s₁)
    (hAddSeg : s₁.addSeg s₂ = some s') :
    Built s' (g ++ [r] ++ g₂) := by
  rcases addSeg_spec hAddSeg with ⟨hStart, hStop, hCells⟩
  refine (hBuilt.addAtEnd hFits hAdd).join hThen ?_ hStart hStop
    hCells
  intro a hLast b hHead
  obtain rfl : r = a := by
    rw [List.getLast?_append_of_ne_nil g (by simp)] at hLast
    exact Option.some.inj hLast
  left
  rw [hThen.start b hHead]
  exact hFits₂

end Add

------------------------------------------------------------
-- Lists of Segments
------------------------------------------------------------

/- Segments that hold the given records, each once. -/
def Covers
    (segs : List MsSegment)
    (held : List TraceRecord) :
    Prop :=
  ∃ gs, List.Forall₂ Built segs gs ∧ gs.flatten.Perm held

theorem covers_cons_iff
    {s : MsSegment}
    {segs : List MsSegment}
    {held : List TraceRecord} :
    Covers (s :: segs) held ↔
      ∃ g rest, Built s g ∧ Covers segs rest ∧
        (g ++ rest).Perm held := by
  constructor
  · rintro ⟨gs, hBuilt, hPerm⟩
    cases hBuilt with
    | cons hHead hTail =>
        exact ⟨_, _, hHead, ⟨_, hTail, .refl _⟩, hPerm⟩
  · rintro ⟨g, rest, hHead, ⟨gs, hTail, hRest⟩, hPerm⟩
    exact ⟨g :: gs, .cons hHead hTail,
      (hRest.append_left g).trans hPerm⟩

/- The order of the segments has no part in it. -/
theorem Covers.perm
    {segs segs' : List MsSegment}
    {held held' : List TraceRecord}
    (hCovers : Covers segs held)
    (hSegs : segs'.Perm segs)
    (hHeld : held.Perm held') :
    Covers segs' held' := by
  rcases hCovers with ⟨gs, hBuilt, hPerm⟩
  rcases List.perm_comp_forall₂ hSegs hBuilt with
    ⟨gs', hBuilt', hGroups⟩
  exact ⟨gs', hBuilt', (hGroups.flatten.trans hPerm).trans hHeld⟩

section Lists

variable {segs : List MsSegment}
variable {held : List TraceRecord}
variable {i : Nat}
variable {s : MsSegment}

theorem perm_cons_eraseIdx
    {α : Type}
    {xs : List α}
    {i : Nat}
    {x : α}
    (hAt : xs[i]? = some x) :
    xs.Perm (x :: xs.eraseIdx i) := by
  rcases List.getElem?_eq_some_iff.mp hAt with ⟨hInside, rfl⟩
  exact (List.getElem_cons_eraseIdx_perm hInside).symm

theorem map_set_same
    {α β : Type}
    {f : α → β}
    {xs : List α}
    {i : Nat}
    {x x' : α}
    (hAt : xs[i]? = some x)
    (hSame : f x' = f x) :
    (xs.set i x').map f = xs.map f := by
  rcases List.getElem?_eq_some_iff.mp hAt with ⟨hInside, rfl⟩
  rw [List.map_set, hSame]
  exact (congrArg _ (List.getElem_map _).symm).trans
    (List.set_getElem_self (by rwa [List.length_map]))

/- A segment taken out, with the records that it holds. -/
theorem Covers.takeOut
    (hCovers : Covers segs held)
    (hAt : segs[i]? = some s) :
    ∃ g rest, Built s g ∧ Covers (segs.eraseIdx i) rest ∧
      (g ++ rest).Perm held :=
  covers_cons_iff.mp
    (hCovers.perm (perm_cons_eraseIdx hAt).symm (.refl held))

/- A segment put in the place of another. -/
theorem Covers.putBack
    {g rest : List TraceRecord}
    (hBuilt : Built s g)
    (hCovers : Covers (segs.eraseIdx i) rest)
    (hInside : i < segs.length)
    (hHeld : (g ++ rest).Perm held) :
    Covers (segs.set i s) held :=
  (covers_cons_iff.mpr ⟨g, rest, hBuilt, hCovers, hHeld⟩).perm
    (List.set_perm_cons_eraseIdx hInside s) (.refl held)

end Lists

------------------------------------------------------------
-- Places
------------------------------------------------------------

section Places

variable {r : TraceRecord}
variable {segs : List MsSegment}

/- The record follows the segment at `i`. -/
def FitsBehind
    (r : TraceRecord)
    (segs : List MsSegment)
    (i : Nat) :
    Prop :=
  ∃ s, segs[i]? = some s ∧ r.Fits (r.postgap s) ∧
    r.RateTolerable s

/- The segment at `j` follows the record. -/
def FitsBefore
    (r : TraceRecord)
    (segs : List MsSegment)
    (j : Nat) :
    Prop :=
  ∃ s, segs[j]? = some s ∧ r.Fits (r.pregap s) ∧
    r.RateTolerable s

/- A place where the record is within the tolerance. -/
def Place.Suits
    (r : TraceRecord)
    (segs : List MsSegment) :
    Place → Prop
| .endOf i => FitsBehind r segs i
| .startOf j => FitsBefore r segs j
| .between i j =>
    i ≠ j ∧ FitsBehind r segs i ∧ FitsBefore r segs j
| .newAt k => k ≤ segs.length

/- What the search has found among the first `k` segments. -/
structure Search.Suits
    (r : TraceRecord)
    (segs : List MsSegment)
    (k : Nat)
    (f : Search) :
    Prop where
  before : ∀ i ∈ f.before, i < k ∧ FitsBehind r segs i
  after : ∀ j ∈ f.after, j < k ∧ FitsBefore r segs j
  apart : ∀ i ∈ f.before, ∀ j ∈ f.after, i ≠ j
  follow : ∀ i ∈ f.follow, i < segs.length

namespace Search.Suits

variable {k : Nat}
variable {f : Search}

theorem next (hSuits : f.Suits r segs k) :
    f.Suits r segs (k + 1) where
  before := fun i hi =>
    ⟨Nat.lt_succ_of_lt (hSuits.before i hi).1,
      (hSuits.before i hi).2⟩
  after := fun j hj =>
    ⟨Nat.lt_succ_of_lt (hSuits.after j hj).1,
      (hSuits.after j hj).2⟩
  apart := hSuits.apart
  follow := hSuits.follow

theorem withFollow
    (hSuits : f.Suits r segs k)
    (hInside : k < segs.length) :
    ({ f with follow := some k } : Search).Suits r segs k where
  before := hSuits.before
  after := hSuits.after
  apart := hSuits.apart
  follow := by
    rintro _ ⟨⟩
    exact hInside

theorem withBefore
    (hSuits : f.Suits r segs k)
    (hFits : FitsBehind r segs k) :
    ({ f with before := some k } : Search).Suits r segs
      (k + 1) where
  before := by
    rintro _ ⟨⟩
    exact ⟨Nat.lt_succ_self k, hFits⟩
  after := hSuits.next.after
  apart := by
    rintro _ ⟨⟩ j hj
    exact (hSuits.after j hj).1.ne'
  follow := hSuits.follow

theorem withAfter
    (hSuits : f.Suits r segs k)
    (hFits : FitsBefore r segs k) :
    ({ f with after := some k } : Search).Suits r segs
      (k + 1) where
  before := hSuits.next.before
  after := by
    rintro _ ⟨⟩
    exact ⟨Nat.lt_succ_self k, hFits⟩
  apart := by
    rintro i hi _ ⟨⟩
    exact (hSuits.before i hi).1.ne
  follow := hSuits.follow

/- What has been found is a place. -/
theorem place (hSuits : f.Suits r segs k) :
    f.place.Suits r segs := by
  rcases f with ⟨_ | i, _ | j, _ | n⟩
  · exact Nat.zero_le _
  · exact hSuits.follow n rfl
  · exact (hSuits.after j rfl).2
  · exact (hSuits.after j rfl).2
  · exact (hSuits.before i rfl).2
  · exact (hSuits.before i rfl).2
  · exact ⟨hSuits.apart i rfl j rfl, (hSuits.before i rfl).2,
      (hSuits.after j rfl).2⟩
  · exact ⟨hSuits.apart i rfl j rfl, (hSuits.before i rfl).2,
      (hSuits.after j rfl).2⟩

end Search.Suits

/- The search, from the `k`-th segment on. -/
theorem searchSegs_suits
    {rest : List MsSegment}
    {k : Nat}
    {f : Search}
    (hRest : segs.drop k = rest)
    (hSuits : f.Suits r segs k) :
    (searchSegs r rest k f).place.Suits r segs := by
  induction rest generalizing k f with
  | nil => exact hSuits.place
  | cons s rest ih =>
      have hAt : segs[k]? = some s := by
        rw [← List.head?_drop, hRest]
        rfl
      have hInside := (List.getElem?_eq_some_iff.mp hAt).1
      have hNext : segs.drop (k + 1) = rest := by
        rw [← List.tail_drop, hRest]
        rfl
      rw [searchSegs]
      generalize hFollow :
        (if s.starttime < r.starttime then
          { f with follow := some k } else f) = f'
      have hSuits' : f'.Suits r segs k := by
        rw [← hFollow]
        split
        · exact hSuits.withFollow hInside
        · exact hSuits
      split
      case isTrue hPre =>
        split
        case isTrue hRate =>
          have hAfter := hSuits'.withAfter ⟨s, hAt, hPre.2, hRate⟩
          split
          · exact hAfter.place
          · exact ih hNext hAfter
        case isFalse => exact ih hNext hSuits'.next
      case isFalse =>
        split
        case isTrue hPost =>
          split
          case isTrue hRate =>
            have hFound :=
              hSuits'.withBefore ⟨s, hAt, hPost.2, hRate⟩
            split
            · exact hFound.place
            · exact ih hNext hFound
          case isFalse => exact ih hNext hSuits'.next
        case isFalse => exact ih hNext hSuits'.next

/- The place that is chosen suits the record. -/
theorem placeFor_suits
    {id : MsTraceID}
    {first last : MsSegment}
    (hFirst : id.segments.head? = some first)
    (hLast : id.segments.getLast? = some last) :
    (placeFor r id first last).Suits r id.segments := by
  unfold placeFor
  split
  case isTrue hFits =>
    rw [List.getLast?_eq_getElem?] at hLast
    exact ⟨last, hLast, hFits⟩
  case isFalse =>
    split
    · exact le_rfl
    split
    · exact Nat.zero_le _
    split
    case isTrue hFits =>
      rw [List.head?_eq_getElem?] at hFirst
      exact ⟨first, hFirst, hFits⟩
    case isFalse =>
      refine searchSegs_suits rfl ⟨?_, ?_, ?_, ?_⟩
      all_goals
        intro i hMem
        cases hMem

end Places

------------------------------------------------------------
-- Adding a Record
------------------------------------------------------------

/- The moves change only where the segment is to be. -/
theorem moveDown_eq
    (s : MsSegment)
    (front rest : List MsSegment) :
    (moveDown s front rest).1.reverse ++ (moveDown s front rest).2 =
      front.reverse ++ rest := by
  induction rest generalizing front with
  | nil => rfl
  | cons n rest ih =>
      rw [moveDown]
      split
      · rw [ih, List.reverse_cons, List.append_assoc]
        rfl
      · rfl

theorem moveUp_eq
    (s : MsSegment)
    (front rest : List MsSegment) :
    (moveUp s front rest).1.reverse ++ (moveUp s front rest).2 =
      front.reverse ++ rest := by
  induction front generalizing rest with
  | nil => rfl
  | cons p front ih =>
      rw [moveUp]
      split
      · rw [ih, List.reverse_cons, List.append_assoc]
        rfl
      · rfl

/- The list without the segment that is settled is the same. -/
theorem settle_eq
    {segs : List MsSegment}
    {k : Nat}
    {s : MsSegment}
    (hAt : segs[k]? = some s) :
    ∃ mid rear front rest,
      moveDown s (segs.take k).reverse (segs.drop (k + 1)) =
          (mid, rear) ∧
        moveUp s mid rear = (front, rest) ∧
        mid.reverse ++ rear = segs.eraseIdx k ∧
        front.reverse ++ rest = segs.eraseIdx k ∧
        settle segs k = front.reverse ++ s :: rest := by
  have hDown := moveDown_eq s (segs.take k).reverse
    (segs.drop (k + 1))
  rw [List.reverse_reverse, ← List.eraseIdx_eq_take_drop_succ]
    at hDown
  have hUp := moveUp_eq s
    (moveDown s (segs.take k).reverse (segs.drop (k + 1))).1
    (moveDown s (segs.take k).reverse (segs.drop (k + 1))).2
  refine ⟨_, _, _, _, rfl, rfl, hDown, hUp.trans hDown, ?_⟩
  rw [settle, hAt]

/- Sorting a segment into place moves segments only. -/
theorem settle_perm
    (segs : List MsSegment)
    (k : Nat) :
    (settle segs k).Perm segs := by
  cases hAt : segs[k]? with
  | none =>
      rw [settle, hAt]
  | some s =>
      rcases settle_eq hAt with
        ⟨-, -, front, rest, -, -, -, hOthers, hSettle⟩
      rw [hSettle]
      refine List.perm_middle.trans ?_
      rw [hOthers]
      exact (perm_cons_eraseIdx hAt).symm

section Adding

variable {r : TraceRecord}
variable {segs : List MsSegment}
variable {held : List TraceRecord}

/- Records that are the same, a new one included. -/
theorem perm_with
    {g rest : List TraceRecord}
    (hHeld : (g ++ rest).Perm held) :
    (g ++ [r] ++ rest).Perm (r :: held) := by
  rw [List.append_assoc, List.singleton_append]
  exact List.perm_middle.trans (hHeld.cons r)

theorem covers_endOf
    {i : Nat}
    {s s' : MsSegment}
    (hCovers : Covers segs held)
    (hAt : segs[i]? = some s)
    (hFits : r.Fits (r.postgap s))
    (hAdd : s.addAtEnd r = some s') :
    Covers (segs.set i s') (r :: held) := by
  rcases hCovers.takeOut hAt with ⟨g, rest, hBuilt, hRest, hHeld⟩
  have hInside := (List.getElem?_eq_some_iff.mp hAt).1
  exact hRest.putBack (hBuilt.addAtEnd hFits hAdd) hInside
    (perm_with hHeld)

theorem covers_startOf
    {j : Nat}
    {s s' : MsSegment}
    (hCovers : Covers segs held)
    (hAt : segs[j]? = some s)
    (hFits : r.Fits (r.pregap s))
    (hAdd : s.addAtStart r = some s') :
    Covers (segs.set j s') (r :: held) := by
  rcases hCovers.takeOut hAt with ⟨g, rest, hBuilt, hRest, hHeld⟩
  have hInside := (List.getElem?_eq_some_iff.mp hAt).1
  exact hRest.putBack (hBuilt.addAtStart hFits hAdd) hInside
    (hHeld.cons r)

/- Where a segment is when another is taken out. -/
theorem getElem?_eraseIdx_other
    {α : Type}
    {xs : List α}
    {i j : Nat}
    {x : α}
    (hApart : i ≠ j)
    (hAt : xs[i]? = some x) :
    (xs.eraseIdx j)[if j < i then i - 1 else i]? = some x := by
  rw [List.getElem?_eraseIdx]
  split
  case isTrue hLess =>
    rw [if_neg (by omega), Nat.sub_add_cancel (by omega)]
    exact hAt
  case isFalse hLess =>
    rw [if_pos (by omega)]
    exact hAt

theorem covers_between
    {i j : Nat}
    {s s₁ s₂ s' : MsSegment}
    (hCovers : Covers segs held)
    (hApart : i ≠ j)
    (hAt : segs[i]? = some s)
    (hAt₂ : segs[j]? = some s₂)
    (hFits : r.Fits (r.postgap s))
    (hFits₂ : r.Fits (r.pregap s₂))
    (hAdd : s.addAtEnd r = some s₁)
    (hAddSeg : s₁.addSeg s₂ = some s') :
    Covers
      ((segs.eraseIdx j).set (if j < i then i - 1 else i) s')
      (r :: held) := by
  rcases hCovers.takeOut hAt₂ with
    ⟨g₂, rest, hBuilt₂, hRest, hHeld⟩
  have hStill := getElem?_eraseIdx_other hApart hAt
  rcases hRest.takeOut hStill with
    ⟨g, rest', hBuilt, hRest', hHeld'⟩
  have hInside := (List.getElem?_eq_some_iff.mp hStill).1
  refine hRest'.putBack
    (hBuilt.addBetween hBuilt₂ hFits hFits₂ hAdd hAddSeg) hInside ?_
  have hOrder :
      (g ++ [r] ++ g₂ ++ rest').Perm
        (g ++ [r] ++ (rest' ++ g₂)) := by
    rw [List.append_assoc]
    exact List.perm_append_comm.append_left _
  refine hOrder.trans ?_
  rw [← List.append_assoc]
  refine ((perm_with hHeld').append_right g₂).trans ?_
  exact (List.perm_append_comm.trans hHeld).cons r

/-
  The record is in one of the segments, or nothing was done.
  An error can be of either kind.
-/
theorem putAt_covers
    {p : Place}
    (hCovers : Covers segs held)
    (hSuits : p.Suits r segs) :
    Covers (putAt r segs p).segments (r :: held) ∨
      (putAt r segs p).index = none ∧
        (putAt r segs p).segments = segs := by
  cases p with
  | endOf i =>
      rcases hSuits with ⟨s, hAt, hFits, -⟩
      rw [putAt, hAt, Option.bind_some]
      split
      case h_1 => exact Or.inr ⟨rfl, rfl⟩
      case h_2 s' hAdd =>
        exact Or.inl (covers_endOf hCovers hAt hFits hAdd)
  | startOf j =>
      rcases hSuits with ⟨s, hAt, hFits, -⟩
      rw [putAt, hAt, Option.bind_some]
      split
      case h_1 => exact Or.inr ⟨rfl, rfl⟩
      case h_2 s' hAdd =>
        exact Or.inl (covers_startOf hCovers hAt hFits hAdd)
  | between i j =>
      rcases hSuits with
        ⟨hApart, ⟨s, hAt, hFits, -⟩, ⟨s₂, hAt₂, hFits₂, -⟩⟩
      rw [putAt, hAt, Option.bind_some, hAt₂]
      simp only [Option.bind_some]
      split
      case h_1 => exact Or.inr ⟨rfl, rfl⟩
      case h_2 s₁ hAdd =>
        split
        case h_1 =>
          -- the record is added, and then the types differ
          exact Or.inl (covers_endOf hCovers hAt hFits hAdd)
        case h_2 s' hAddSeg =>
          exact Or.inl (covers_between hCovers hApart hAt hAt₂
            hFits hFits₂ hAdd hAddSeg)
  | newAt k =>
      left
      refine (covers_cons_iff.mpr
        ⟨[r], held, built_segment r, hCovers, .refl _⟩).perm ?_
        (.refl _)
      exact List.perm_insertIdx r.segment segs hSuits

/- The same of a trace; without an error it is the first. -/
theorem addToTrace_covers
    {id : MsTraceID}
    (hCovers : Covers id.segments held) :
    (addToTrace r id).1.sid = id.sid ∧
      (Covers (addToTrace r id).1.segments (r :: held) ∨
        (addToTrace r id).2 = false ∧
          Covers (addToTrace r id).1.segments held) := by
  unfold addToTrace
  split
  case h_1 first last hFirst hLast =>
    have hPut := putAt_covers (r := r) hCovers
      (placeFor_suits hFirst hLast)
    dsimp only
    split
    case h_1 hNone =>
      refine ⟨rfl, hPut.imp_right ?_⟩
      rintro ⟨-, hSame⟩
      exact ⟨rfl, hSame.symm ▸ hCovers⟩
    case h_2 k hIndex =>
      refine ⟨rfl, Or.inl ?_⟩
      rcases hPut with hPut | ⟨hNone, -⟩
      · exact hPut.perm (settle_perm _ k) (.refl _)
      · cases hIndex.symm.trans hNone
  case h_2 => exact ⟨rfl, Or.inr ⟨rfl, hCovers⟩⟩

end Adding

------------------------------------------------------------
-- Trace Lists
------------------------------------------------------------

/- An identifier that does not fill its field. -/
def PlainSid (sid : List UInt8) : Prop :=
  0 ∉ sid ∧ sid.length < lmSidlen - 1

theorem signedChar_inj {a b : UInt8} :
    signedChar a = signedChar b ↔ a = b := by
  constructor
  · intro hSame
    have ha := a.toNat_lt
    have hb := b.toNat_lt
    unfold signedChar at hSame
    apply UInt8.toNat_inj.mp
    split at hSame <;> split at hSame <;> omega
  · rintro rfl
    rfl

theorem signedChar_ne_zero {a : UInt8} (hSome : 0 ≠ a) :
    signedChar a ≠ 0 := by
  intro hZero
  exact hSome (signedChar_inj.mp hZero).symm

/- Only equal identifiers compare as equal. -/
theorem compareSid_eq_zero_iff
    {s t : List UInt8}
    (hs : 0 ∉ s)
    (ht : 0 ∉ t) :
    (compareSid 0 s t).1 = 0 ↔ s = t := by
  induction s generalizing t with
  | nil =>
      cases t with
      | nil => exact iff_of_true rfl rfl
      | cons b t =>
          refine iff_of_false ?_ (List.cons_ne_nil b t).symm
          exact neg_ne_zero.mpr
            (signedChar_ne_zero (List.ne_of_not_mem_cons ht))
  | cons a s ih =>
      cases t with
      | nil =>
          exact iff_of_false
            (signedChar_ne_zero (List.ne_of_not_mem_cons hs))
            (List.cons_ne_nil a s)
      | cons b t =>
          rw [compareSid]
          split
          case isTrue hSame =>
            rw [hSame, List.cons_inj_right]
            exact ih (List.not_mem_of_not_mem_cons hs)
              (List.not_mem_of_not_mem_cons ht)
          case isFalse hOther =>
            refine iff_of_false ?_ ?_
            · exact sub_ne_zero.mpr
                (fun hSame => hOther (signedChar_inj.mp hSame))
            · intro hSame
              exact hOther (List.cons.inj hSame).1

theorem compare_eq_zero_iff
    {id : MsTraceID}
    {sid : List UInt8}
    (hId : PlainSid id.sid)
    (hSid : PlainSid sid) :
    (id.compare sid).1 = 0 ↔ id.sid = sid := by
  rw [MsTraceID.compare, MsTraceID.behindSid, if_pos hId.2]
  exact compareSid_eq_zero_iff hId.1 hSid.1

/- A new trace is put behind one that there is. -/
theorem lessThan_pos
    (sid : List UInt8)
    {ids : List MsTraceID}
    {k : Nat}
    {lt : LessThan}
    (hBefore : ∀ p ∈ lt.pos, p < k) :
    ∀ p ∈ (lessThan sid ids k lt).pos, p < k + ids.length := by
  induction ids generalizing k lt with
  | nil => exact hBefore
  | cons id ids ih =>
      rw [List.length_cons, Nat.add_comm ids.length 1,
        ← Nat.add_assoc, lessThan]
      split
      · apply ih
        rintro _ ⟨⟩
        exact Nat.lt_succ_self k
      · exact ih fun p hp => Nat.lt_succ_of_lt (hBefore p hp)

/-
  A trace list that holds the given records, each once, in
  the trace of its identifier.
-/
structure Kept
    (l : MsTraceList)
    (held : List TraceRecord) :
    Prop where
  sids : (l.traces.map MsTraceID.sid).Nodup
  last : l.last = none → l.traces = []
  plain : ∀ id ∈ l.traces, PlainSid id.sid
  parts : ∀ id ∈ l.traces,
    Covers id.segments (held.filter (·.sid = id.sid))
  found : ∀ r ∈ held, r.sid ∈ l.traces.map MsTraceID.sid

namespace Kept

variable {l : MsTraceList}
variable {held : List TraceRecord}
variable {r : TraceRecord}

theorem init : Kept MsTraceList.init [] where
  sids := List.nodup_nil
  last := fun _ => rfl
  plain := fun _ hMem => (List.not_mem_nil hMem).elim
  parts := fun _ hMem => (List.not_mem_nil hMem).elim
  found := fun _ hMem => (List.not_mem_nil hMem).elim

theorem perm
    {held' : List TraceRecord}
    (hKept : Kept l held)
    (hPerm : held.Perm held') :
    Kept l held' where
  sids := hKept.sids
  last := hKept.last
  plain := hKept.plain
  parts := fun id hMem =>
    (hKept.parts id hMem).perm (.refl _) (hPerm.filter _)
  found := fun r hMem => hKept.found r (hPerm.mem_iff.mpr hMem)

/- A trace that is found has the identifier. -/
theorem find_some
    {k : Nat}
    (hKept : Kept l held)
    (hSid : PlainSid r.sid)
    (hFind : findTrace r.sid l.traces = some k) :
    ∃ id, l.traces[k]? = some id ∧ id.sid = r.sid := by
  rcases List.findIdx?_eq_some_iff_getElem.mp hFind with
    ⟨hInside, hSame, -⟩
  refine ⟨_, List.getElem?_eq_getElem hInside, ?_⟩
  exact (compare_eq_zero_iff
    (hKept.plain _ (List.getElem_mem hInside)) hSid).mp
      (of_decide_eq_true hSame)

theorem find_none
    (hKept : Kept l held)
    (hSid : PlainSid r.sid)
    (hFind : findTrace r.sid l.traces = none) :
    r.sid ∉ l.traces.map MsTraceID.sid := by
  intro hMem
  rcases List.mem_map.mp hMem with ⟨id, hId, hSame⟩
  have hOther := List.findIdx?_eq_none_iff.mp hFind id hId
  exact of_decide_eq_false hOther
    ((compare_eq_zero_iff (hKept.plain id hId) hSid).mpr hSame)

/- A trace list with a new trace. -/
theorem insert
    {pos : Nat}
    (hKept : Kept l held)
    (hSid : PlainSid r.sid)
    (hNew : r.sid ∉ l.traces.map MsTraceID.sid)
    (hPos : pos ≤ l.traces.length) :
    Kept ⟨l.traces.insertIdx pos r.trace, some r.sid⟩
      (r :: held) := by
  have hPerm : (l.traces.insertIdx pos r.trace).Perm
      (r.trace :: l.traces) :=
    List.perm_insertIdx r.trace l.traces hPos
  have hSids := hPerm.map MsTraceID.sid
  refine ⟨?_, fun hNone => (Option.some_ne_none _ hNone).elim,
    ?_, ?_, ?_⟩
  · exact hSids.nodup_iff.mpr (List.nodup_cons.mpr
      ⟨hNew, hKept.sids⟩)
  · intro id hMem
    rcases List.mem_cons.mp (hPerm.mem_iff.mp hMem) with rfl | hMem
    · exact hSid
    · exact hKept.plain id hMem
  · intro id hMem
    rcases List.mem_cons.mp (hPerm.mem_iff.mp hMem) with rfl | hMem
    · -- no other record has this identifier
      have hOthers :
          held.filter (·.sid = r.trace.sid) = [] := by
        refine List.filter_eq_nil_iff.mpr fun s hs hSame => ?_
        have hName : s.sid = r.sid := of_decide_eq_true hSame
        exact hNew (hName ▸ hKept.found s hs)
      have hHere : decide (r.sid = r.trace.sid) = true :=
        decide_eq_true rfl
      rw [List.filter_cons, if_pos hHere, hOthers]
      exact covers_cons_iff.mpr ⟨[r], [], built_segment r,
        ⟨[], .nil, .refl _⟩, .refl _⟩
    · have hApart : ¬ decide (r.sid = id.sid) = true := by
        intro hSame
        exact hNew (of_decide_eq_true hSame ▸
          List.mem_map_of_mem hMem)
      rw [List.filter_cons, if_neg hApart]
      exact hKept.parts id hMem
  · intro s hs
    refine hSids.mem_iff.mpr ?_
    rcases List.mem_cons.mp hs with rfl | hs
    · exact List.mem_cons_self
    · exact List.mem_cons_of_mem _ (hKept.found s hs)

/- A trace list with one of its traces changed. -/
theorem set
    {k : Nat}
    {id id' : MsTraceID}
    {last : Option (List UInt8)}
    {held' : List TraceRecord}
    (hKept : Kept l held)
    (hAt : l.traces[k]? = some id)
    (hSame : id'.sid = id.sid)
    (hLast : last = none → l.last = none)
    (hCovers :
      Covers id'.segments (held'.filter (·.sid = id.sid)))
    (hOthers : ∀ t, t ≠ id.sid →
      held'.filter (·.sid = t) = held.filter (·.sid = t))
    (hFound : ∀ s ∈ held', s ∈ held ∨ s.sid = id.sid) :
    Kept ⟨l.traces.set k id', last⟩ held' := by
  have hMap := map_set_same hAt hSame
  have hHere : id.sid ∈ l.traces.map MsTraceID.sid :=
    List.mem_map_of_mem (List.mem_of_getElem? hAt)
  have hCases : ∀ t ∈ l.traces.set k id',
      t = id' ∨ t ∈ l.traces ∧ t.sid ≠ id.sid := by
    intro t hMem
    rcases List.mem_iff_getElem?.mp hMem with ⟨n, hn⟩
    rw [List.getElem?_set] at hn
    split at hn
    case isTrue =>
      split at hn
      · exact Or.inl (Option.some.inj hn).symm
      · cases hn
    case isFalse hApart =>
      refine Or.inr ⟨List.mem_of_getElem? hn, fun hName => ?_⟩
      have hInside : k < (l.traces.map MsTraceID.sid).length := by
        rw [List.length_map]
        exact (List.getElem?_eq_some_iff.mp hAt).1
      refine hApart
        ((List.getElem?_inj hInside hKept.sids).mp ?_)
      rw [List.getElem?_map, List.getElem?_map, hAt, hn,
        Option.map_some, Option.map_some, hName]
  refine ⟨hMap.symm ▸ hKept.sids, ?_, ?_, ?_, ?_⟩
  · intro hNone
    have hNil := hKept.last (hLast hNone)
    rw [hNil] at hAt
    cases hAt
  · intro t hMem
    rcases hCases t hMem with rfl | ⟨hMem, -⟩
    · rw [hSame]
      exact hKept.plain id (List.mem_of_getElem? hAt)
    · exact hKept.plain t hMem
  · intro t hMem
    rcases hCases t hMem with rfl | ⟨hMem, hName⟩
    · rw [hSame]
      exact hCovers
    · rw [hOthers _ hName]
      exact hKept.parts t hMem
  · intro s hs
    rw [hMap]
    rcases hFound s hs with hs | hName
    · exact hKept.found s hs
    · rw [hName]
      exact hHere

/- A record added to a trace that there is. -/
theorem addTo
    {k : Nat}
    {id : MsTraceID}
    (hKept : Kept l held)
    (hAt : l.traces[k]? = some id)
    (hName : id.sid = r.sid) :
    Kept
        ⟨l.traces.set k (addToTrace r id).1,
          if (addToTrace r id).2 then some id.sid else l.last⟩
        (r :: held) ∨
      (addToTrace r id).2 = false ∧
        Kept
          ⟨l.traces.set k (addToTrace r id).1,
            if (addToTrace r id).2 then some id.sid else l.last⟩
          held := by
  have hCovers :=
    hKept.parts id (List.mem_of_getElem? hAt)
  have hLast :
      (if (addToTrace r id).2 then some id.sid else l.last) =
          none →
        l.last = none := by
    split
    · exact fun hNone => (Option.some_ne_none _ hNone).elim
    · exact fun hNone => hNone
  rcases addToTrace_covers (r := r) hCovers with
    ⟨hSame, hAdded | ⟨hError, hLeft⟩⟩
  · left
    refine hKept.set hAt hSame hLast ?_ ?_ ?_
    · rw [List.filter_cons, if_pos (decide_eq_true hName.symm)]
      exact hAdded
    · intro t hOther
      have hApart : ¬ decide (r.sid = t) = true := by
        intro hThis
        exact hOther
          ((of_decide_eq_true hThis).symm.trans hName.symm)
      rw [List.filter_cons, if_neg hApart]
    · intro s hs
      rcases List.mem_cons.mp hs with rfl | hs
      · exact Or.inr hName.symm
      · exact Or.inl hs
  · right
    exact ⟨hError, hKept.set hAt hSame hLast hLeft
      (fun _ _ => rfl) (fun _ hs => Or.inl hs)⟩

/- One call: only an error can leave the record out. -/
theorem step
    (hKept : Kept l held)
    (hSid : PlainSid r.sid) :
    Kept (mstl3Addmsr l r).1 (r :: held) ∨
      (mstl3Addmsr l r).2 = false ∧
        Kept (mstl3Addmsr l r).1 held := by
  unfold mstl3Addmsr
  split
  case isTrue => exact Or.inr ⟨rfl, hKept⟩
  case isFalse =>
    split
    case h_1 k hFind =>
      have hFound : findTrace r.sid l.traces = some k := by
        split at hFind
        · cases hFind
        · exact hFind
      rcases hKept.find_some hSid hFound with ⟨id, hAt, hName⟩
      rw [hAt]
      exact hKept.addTo hAt hName
    case h_2 hFind =>
      left
      split at hFind
      case isTrue hFirst =>
        have hNil := hKept.last hFirst
        refine hKept.insert hSid ?_ ?_
        · rw [hNil]
          exact List.not_mem_nil
        · rw [if_pos hFirst]
          exact Nat.zero_le _
      case isFalse hLater =>
        refine hKept.insert hSid (hKept.find_none hSid hFind) ?_
        rw [if_neg hLater]
        have hNone : ∀ p ∈ (⟨0, 0, none⟩ : LessThan).pos, p < 0 := by
          rintro _ ⟨⟩
        have hPos := @lessThan_pos r.sid l.traces 0 _ hNone
        cases hLess : (lessThan r.sid l.traces 0
            ⟨0, 0, none⟩).pos with
        | none => exact Nat.zero_le _
        | some p =>
            have hInside := hPos p hLess
            rw [Nat.zero_add] at hInside
            exact hInside

end Kept

------------------------------------------------------------
-- Runs
------------------------------------------------------------

/- The records for which a segment was returned. -/
def accepted
    (rs : List TraceRecord)
    (returned : List Bool) :
    List TraceRecord :=
  ((rs.zip returned).filter Prod.snd).map Prod.fst

theorem length_addRecords
    (l : MsTraceList)
    (rs : List TraceRecord) :
    (addRecords l rs).2.length = rs.length := by
  induction rs generalizing l with
  | nil => rfl
  | cons r rs ih => exact congrArg (· + 1) (ih _)

theorem accepted_of_all
    {rs : List TraceRecord}
    {returned : List Bool}
    (hLength : returned.length = rs.length)
    (hAll : ∀ b ∈ returned, b = true) :
    accepted rs returned = rs := by
  have hZip : (rs.zip returned).filter Prod.snd =
      rs.zip returned := by
    refine List.filter_eq_self.mpr fun x hMem => ?_
    exact hAll x.2 (List.of_mem_zip hMem).2
  rw [accepted, hZip, List.map_fst_zip hLength.ge]

/- The records that are added to those that are held. -/
theorem Kept.run
    {l : MsTraceList}
    {held rs : List TraceRecord}
    (hKept : Kept l held)
    (hPlain : ∀ r ∈ rs, PlainSid r.sid) :
    ∃ added,
      Kept (addRecords l rs).1 (added ++ held) ∧
        (accepted rs (addRecords l rs).2).Sublist added ∧
        added.Sublist rs := by
  induction rs generalizing l held with
  | nil => exact ⟨[], hKept, .slnil, .slnil⟩
  | cons r rs ih =>
      rcases List.forall_mem_cons.mp hPlain with ⟨hHere, hPlain⟩
      have hAccepted :
          accepted (r :: rs) (addRecords l (r :: rs)).2 =
            (if (mstl3Addmsr l r).2 then [r] else []) ++
              accepted rs
                (addRecords (mstl3Addmsr l r).1 rs).2 := by
        cases hReturn : (mstl3Addmsr l r).2 <;>
          simp [accepted, addRecords, hReturn]
      rw [hAccepted, addRecords]
      rcases hKept.step hHere with hAdded | ⟨hError, hLeft⟩
      · rcases ih hAdded hPlain with ⟨added, hRest, hMost, hFew⟩
        refine ⟨r :: added, ?_, ?_, hFew.cons_cons r⟩
        · exact hRest.perm List.perm_middle
        · split
          · exact hMost.cons_cons r
          · exact hMost.cons r
      · rcases ih hLeft hPlain with ⟨added, hRest, hMost, hFew⟩
        rw [hError]
        exact ⟨added, hRest, hMost, hFew.cons r⟩

/-
  Records in any order, from an empty trace list on: those
  that are accepted, and no record twice, are in the segments
  of the one trace of their identifier, and every segment is
  a chain of them.
-/
theorem added_records_kept
    {rs : List TraceRecord}
    (hPlain : ∀ r ∈ rs, PlainSid r.sid)
    {l : MsTraceList}
    {returned : List Bool}
    (hRun : addRecords MsTraceList.init rs = (l, returned)) :
    ∃ added,
      (accepted rs returned).Sublist added ∧
        added.Sublist rs ∧
        ((∀ b ∈ returned, b = true) → added = rs) ∧
        (l.traces.map MsTraceID.sid).Nodup ∧
        (∀ r ∈ added, r.sid ∈ l.traces.map MsTraceID.sid) ∧
        ∀ id ∈ l.traces,
          Covers id.segments (added.filter (·.sid = id.sid)) := by
  rcases Kept.init.run hPlain with ⟨added, hKept, hMost, hFew⟩
  have hLength := length_addRecords MsTraceList.init rs
  rw [hRun] at hKept hMost hLength
  rw [List.append_nil] at hKept
  refine ⟨added, hMost, hFew, ?_, hKept.sids, hKept.found,
    hKept.parts⟩
  intro hAll
  rw [accepted_of_all hLength hAll] at hMost
  exact hFew.antisymm hMost

/- Two samples at one a second; the last record fills a gap. -/
def gapRecords : List TraceRecord :=
  [(0, [1, 2]), (4000000000, [5, 6]), (2000000000, [3, 4])].map
    fun x =>
      { sid := ['F', 'D', 'S', 'N', ':', 'X'].map ch
        pubversion := 1
        starttime := x.1
        samprate := ExtRat.ofInt 1
        samples := .int32s x.2 }

/- All are kept, in one segment. -/
theorem added_records_kept_gap :
    ∃ l,
      addRecords MsTraceList.init gapRecords =
          (l, [true, true, true]) ∧
        l.traces.map (fun id => id.segments.map (·.samples)) =
          [[.int32s [1, 2, 3, 4, 5, 6]]] ∧
        ∀ id ∈ l.traces,
          Covers id.segments
            (gapRecords.filter (·.sid = id.sid)) := by
  have hReturned :
      (addRecords MsTraceList.init gapRecords).2 =
        [true, true, true] := by
    decide +kernel
  have hSegments :
      (addRecords MsTraceList.init gapRecords).1.traces.map
          (fun id => id.segments.map (·.samples)) =
        [[.int32s [1, 2, 3, 4, 5, 6]]] := by
    decide +kernel
  rcases hRun : addRecords MsTraceList.init gapRecords with
    ⟨l, returned⟩
  rw [hRun] at hReturned hSegments
  obtain rfl : returned = [true, true, true] := hReturned
  have hPlain : ∀ r ∈ gapRecords, PlainSid r.sid := by
    unfold PlainSid
    decide
  rcases added_records_kept hPlain hRun with
    ⟨added, -, -, hAll, -, -, hCovers⟩
  obtain rfl := hAll (by decide)
  exact ⟨l, rfl, hSegments, hCovers⟩

end TankConvertor
