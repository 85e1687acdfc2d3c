import Mathlib.Order.Interval.Set.Basic
import TankConvertor.Library.Memory

/-
  Which bytes of a memory an access depends on.

  Key definitions include:
    * `ByteMem.AgreeOn`
    * `ByteMem.upTo`
    * `ByteMem.HasIn`

  Key theorems include:
    * `ByteMem.AgreeOn.swapAt` and its siblings
    * `ByteMem.upTo_subset_iff`
    * `ByteMem.hasIn_swapAt`
    * `ByteMem.hasIn_swapWords`
-/

namespace ByteMem

------------------------------------------------------------
-- Agreement On A Set Of Addresses
------------------------------------------------------------

/- Two memories hold the same bytes on a set. -/
def AgreeOn (S : Set Int) (m m' : ByteMem) : Prop :=
  ∀ i ∈ S, m i = m' i

namespace AgreeOn

variable {S : Set Int} {m m' : ByteMem}

theorem read
    (h : AgreeOn S m m')
    {p : Int}
    {n : Nat}
    (hIn : Set.Ico p (p + n) ⊆ S) :
    m.read p n = m'.read p n := by
  apply read_congr
  intro i hLow hHigh
  exact h i (hIn ⟨hLow, hHigh⟩)

/- Any word within a part they agree on. -/
theorem read_within
    (h : AgreeOn S m m')
    {a b : Int}
    (hIn : Set.Ico a b ⊆ S)
    {p : Int}
    {n : Nat}
    (hWithin : a ≤ p ∧ p + n ≤ b) :
    m'.read p n = m.read p n := by
  refine (h.read (fun i hi => hIn ?_)).symm
  have hLow := hi.1
  have hHigh := hi.2
  constructor <;> omega

theorem swapAt
    (h : AgreeOn S m m')
    {p : Int}
    {n : Nat}
    (hIn : Set.Ico p (p + n) ⊆ S) :
    AgreeOn S (m.swapAt p n) (m'.swapAt p n) := by
  intro i hi
  unfold ByteMem.swapAt
  split
  · apply h
    apply hIn
    constructor <;> omega
  · exact h i hi

theorem set
    (h : AgreeOn S m m')
    (p : Int)
    (b : UInt8) :
    AgreeOn S (m.set p b) (m'.set p b) := by
  intro i hi
  unfold ByteMem.set
  split
  · rfl
  · exact h i hi

theorem swapWords
    (h : AgreeOn S m m')
    {p : Int}
    {w k : Nat}
    (hIn : Set.Ico p (p + k * w) ⊆ S) :
    AgreeOn S (m.swapWords p w k) (m'.swapWords p w k) := by
  induction k with
  | zero => exact h
  | succ k ih =>
      have hGrow :
          ((k + 1 : Nat) : Int) * w = k * w + w := by
        push_cast
        ring
      have hNonneg : (0 : Int) ≤ k * w := by positivity
      rw [hGrow] at hIn
      apply (ih (fun i hi => hIn ⟨hi.1, ?_⟩)).swapAt
      · intro i hi
        exact hIn ⟨by have := hi.1; omega,
          by have := hi.2; omega⟩
      · have hLt := hi.2
        omega

end AgreeOn

------------------------------------------------------------
-- Reading Up To A Byte That Stops
------------------------------------------------------------

/- The bytes from `q` on, up to the first that stops. -/
def upTo
    (m : ByteMem)
    (stop : UInt8 → Bool)
    (q : Int) :
    Set Int :=
  {i | q ≤ i ∧ ∀ j, q ≤ j → j < i → stop (m j) = false}

/- Memories that agree up to the stop read the same there. -/
theorem takeWhile_read_of_agreeOn
    {m m' : ByteMem}
    {stop : UInt8 → Bool}
    {q : Int}
    (hAgree : AgreeOn (m.upTo stop q) m m')
    (n : Nat) :
    (m.read q n).takeWhile (fun b => !stop b) =
      (m'.read q n).takeWhile (fun b => !stop b) := by
  induction n generalizing q with
  | zero => rfl
  | succ n ih =>
      have hFirst : m q = m' q :=
        hAgree q ⟨le_refl q, fun j hq hj => by omega⟩
      rw [read_succ, read_succ, hFirst]
      cases hStop : stop (m q) with
      | true =>
          rw [hFirst] at hStop
          simp [hStop]
      | false =>
          have hRest : AgreeOn (m.upTo stop (q + 1)) m m' := by
            rintro i ⟨hi, hRun⟩
            refine hAgree i ⟨by omega, ?_⟩
            intro j hq hj
            rcases eq_or_lt_of_le hq with rfl | hLt
            · exact hStop
            · exact hRun j (by omega) hj
          rw [hFirst] at hStop
          simp [hStop, ih hRest]

/- Some byte between two addresses has a property. -/
def HasIn
    (m : ByteMem)
    (P : UInt8 → Bool)
    (a b : Int) : Prop :=
  ∃ i, a ≤ i ∧ i < b ∧ P (m i) = true

theorem HasIn.mono
    {m : ByteMem}
    {P : UInt8 → Bool}
    {a a' b : Int}
    (h : m.HasIn P a b)
    (hLe : a' ≤ a) :
    m.HasIn P a' b := by
  rcases h with ⟨i, hLow, hHigh, hStop⟩
  exact ⟨i, hLe.trans hLow, hHigh, hStop⟩

/- The read stays below `b` when some byte stops it there. -/
theorem upTo_subset_iff
    {m : ByteMem}
    {stop : UInt8 → Bool}
    {q a b : Int}
    (hLow : a ≤ q) :
    m.upTo stop q ⊆ Set.Ico a b ↔ m.HasIn stop q b := by
  constructor
  · intro hIn
    by_contra hNone
    have hRun : ∀ j, q ≤ j → j < b → stop (m j) = false := by
      intro j hq hb
      by_contra hStop
      exact hNone ⟨j, hq, hb, (Bool.not_eq_false _).mp hStop⟩
    have hStart : q ∈ m.upTo stop q :=
      ⟨le_refl q, fun j hq hj => by omega⟩
    have hEnd : b ∈ m.upTo stop q :=
      ⟨(hIn hStart).2.le, hRun⟩
    exact lt_irrefl b (hIn hEnd).2
  · rintro ⟨j, hq, hb, hStop⟩ i ⟨hi, hRun⟩
    refine ⟨hLow.trans hi, ?_⟩
    by_contra hFar
    have hNot := hRun j hq (by omega)
    rw [hStop] at hNot
    cases hNot

/- Reversing bytes within the two addresses loses none. -/
theorem hasIn_swapAt
    {m : ByteMem}
    {P : UInt8 → Bool}
    {a b p : Int}
    {n : Nat}
    (hLow : a ≤ p)
    (hHigh : p + n ≤ b) :
    (m.swapAt p n).HasIn P a b ↔ m.HasIn P a b := by
  constructor
  · rintro ⟨i, ha, hb, hP⟩
    unfold swapAt at hP
    split at hP
    · exact ⟨_, by omega, by omega, hP⟩
    · exact ⟨i, ha, hb, hP⟩
  · rintro ⟨i, ha, hb, hP⟩
    by_cases hi : p ≤ i ∧ i < p + n
    · refine ⟨2 * p + n - 1 - i, by omega, by omega, ?_⟩
      unfold swapAt
      rw [if_pos (by omega)]
      have hBack : 2 * p + n - 1 - (2 * p + n - 1 - i) = i := by
        ring
      rw [hBack]
      exact hP
    · refine ⟨i, ha, hb, ?_⟩
      unfold swapAt
      rw [if_neg hi]
      exact hP

theorem hasIn_swapWords
    {m : ByteMem}
    {P : UInt8 → Bool}
    {a b p : Int}
    {w k : Nat}
    (hLow : a ≤ p)
    (hHigh : p + k * w ≤ b) :
    (m.swapWords p w k).HasIn P a b ↔ m.HasIn P a b := by
  induction k with
  | zero => exact Iff.rfl
  | succ k ih =>
      have hGrow :
          ((k + 1 : Nat) : Int) * w = k * w + w := by
        push_cast
        ring
      have hNonneg : (0 : Int) ≤ k * w := by positivity
      rw [hGrow] at hHigh
      simp only [swapWords]
      rw [hasIn_swapAt (by omega) (by omega)]
      exact ih (by omega)

/- Overwriting a byte that does not count by another such. -/
theorem hasIn_set
    {m : ByteMem}
    {P : UInt8 → Bool}
    {a b p : Int}
    {v : UInt8}
    (hOut : a ≤ p → P (m p) = false ∧ P v = false) :
    (m.set p v).HasIn P a b ↔ m.HasIn P a b := by
  constructor
  · rintro ⟨i, ha, hb, hP⟩
    by_cases hi : i = p
    · subst hi
      rw [set_self, (hOut ha).2] at hP
      cases hP
    · rw [set_of_ne m v hi] at hP
      exact ⟨i, ha, hb, hP⟩
  · rintro ⟨i, ha, hb, hP⟩
    refine ⟨i, ha, hb, ?_⟩
    by_cases hi : i = p
    · subst hi
      rw [(hOut ha).1] at hP
      cases hP
    · rw [set_of_ne m v hi]
      exact hP

/- Only the bytes between the two addresses matter. -/
theorem hasIn_congr
    {m m' : ByteMem}
    {P : UInt8 → Bool}
    {a b : Int}
    (hAgree : ∀ i, a ≤ i → i < b → m i = m' i) :
    m.HasIn P a b ↔ m'.HasIn P a b := by
  constructor
  · rintro ⟨i, ha, hb, hP⟩
    exact ⟨i, ha, hb, by rw [← hAgree i ha hb]; exact hP⟩
  · rintro ⟨i, ha, hb, hP⟩
    exact ⟨i, ha, hb, by rw [hAgree i ha hb]; exact hP⟩

end ByteMem
