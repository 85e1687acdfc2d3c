import TankConvertor.Library.Memory

/-
  Memories that differ in the byte order of some words.

  Key definitions include:
    * `ByteMem.Word` and `ByteMem.Word.Apart`
    * `ByteMem.Reversed`

  Key theorems include:
    * `ByteMem.Reversed.append`
    * `ByteMem.Reversed.symm` and `ByteMem.Reversed.unique`
    * `ByteMem.reversed_swapWords`
    * `ByteOrder.value_inj`
-/

------------------------------------------------------------
-- Numbers And Palindromes
------------------------------------------------------------

/- Bytes of one length are told apart by their number. -/
theorem leNat_inj :
    ∀ {as bs : List UInt8},
      as.length = bs.length → leNat as = leNat bs → as = bs
| [], [], _, _ => rfl
| a :: as, b :: bs, hLength, hValue => by
    have hByte : a.toNat < 256 := a.toNat_lt
    have hByte' : b.toNat < 256 := b.toNat_lt
    simp only [leNat] at hValue
    have hHead : a = b := UInt8.toNat_inj.mp (by omega)
    have hTail : as = bs :=
      leNat_inj (by simpa using hLength) (by omega)
    rw [hHead, hTail]

namespace ByteOrder

theorem value_inj
    (o : ByteOrder)
    {as bs : List UInt8}
    (hLength : as.length = bs.length)
    (hValue : o.value as = o.value bs) :
    as = bs := by
  cases o with
  | little => exact leNat_inj hLength hValue
  | big =>
      exact List.reverse_injective
        (leNat_inj (by simpa using hLength) hValue)

end ByteOrder

------------------------------------------------------------
-- Reversed Words
------------------------------------------------------------

namespace ByteMem

/- An address and a number of bytes. -/
abbrev Word := Int × Nat

namespace Word

/- The byte at `i` belongs to none of the words. -/
def Misses (W : List Word) (i : Int) : Prop :=
  ∀ w ∈ W, i < w.1 ∨ w.1 + w.2 ≤ i

/- No byte belongs to a word of each. -/
def Apart (W V : List Word) : Prop :=
  ∀ w ∈ W, ∀ v ∈ V, w.1 + w.2 ≤ v.1 ∨ v.1 + v.2 ≤ w.1

end Word

/-
  One memory is the other with each of the words reversed
  in place.
-/
structure Reversed
    (W : List Word)
    (m m' : ByteMem) : Prop where
  inside : ∀ w ∈ W, m'.read w.1 w.2 = (m.read w.1 w.2).reverse
  outside : ∀ i, Word.Misses W i → m' i = m i

namespace Reversed

variable {W V : List Word} {m m' m'' : ByteMem}

/- Bytes between the words are read as before. -/
theorem read_eq
    (h : Reversed W m m')
    {q : Int}
    {n : Nat}
    (hApart : Word.Apart W [(q, n)]) :
    m'.read q n = m.read q n := by
  apply read_congr
  intro i hLow hHigh
  apply h.outside
  intro w hw
  have hSide := hApart w hw (q, n) (by simp)
  simp only at hSide
  omega

/- Words that lie apart are reversed one after the other. -/
theorem append
    (h : Reversed W m m')
    (h' : Reversed V m' m'')
    (hApart : Word.Apart W V) :
    Reversed (W ++ V) m m'' where
  inside := by
    rintro w hw
    rcases List.mem_append.mp hw with hLeft | hRight
    · have hSame : m''.read w.1 w.2 = m'.read w.1 w.2 := by
        apply h'.read_eq
        intro v hv u hu
        rw [List.mem_singleton.mp hu]
        exact (hApart w hLeft v hv).symm
      rw [hSame, h.inside w hLeft]
    · have hSame : m'.read w.1 w.2 = m.read w.1 w.2 := by
        apply h.read_eq
        intro v hv u hu
        rw [List.mem_singleton.mp hu]
        exact hApart v hv w hRight
      rw [h'.inside w hRight, hSame]
  outside := by
    intro i hMiss
    rw [h'.outside i
        (fun v hv => hMiss v (List.mem_append_right _ hv)),
      h.outside i
        (fun w hw => hMiss w (List.mem_append_left _ hw))]

/- Reversing is undone by reversing. -/
theorem symm
    (h : Reversed W m m') :
    Reversed W m' m where
  inside := by
    intro w hw
    rw [h.inside w hw, List.reverse_reverse]
  outside := by
    intro i hMiss
    rw [h.outside i hMiss]

/- The reversed memory is determined. -/
theorem unique
    (h : Reversed W m m')
    (h' : Reversed W m m'') :
    m' = m'' := by
  funext i
  by_cases hMiss : Word.Misses W i
  · rw [h.outside i hMiss, h'.outside i hMiss]
  · unfold Word.Misses at hMiss
    push Not at hMiss
    rcases hMiss with ⟨w, hw, hLow, hHigh⟩
    exact eq_of_read_eq
      ((h.inside w hw).trans (h'.inside w hw).symm) hLow hHigh

/- A byte of no word may be overwritten on both sides. -/
theorem set
    (h : Reversed W m m')
    {a : Int}
    (b : UInt8)
    (hMiss : Word.Misses W a) :
    Reversed W (m.set a b) (m'.set a b) where
  inside := by
    intro w hw
    have hOut : a < w.1 ∨ w.1 + w.2 ≤ a := hMiss w hw
    rw [read_set_of_outside m' b hOut,
      read_set_of_outside m b hOut]
    exact h.inside w hw
  outside := by
    intro i hi
    by_cases hEq : i = a
    · rw [hEq, set_self, set_self]
    · rw [set_of_ne _ _ hEq, set_of_ne _ _ hEq]
      exact h.outside i hi

/-
  A word read in the other order is the number it was; a
  palindrome is that in its own order as well.
-/
theorem value_eq
    (h : Reversed W m m')
    (o : ByteOrder)
    {w : Word}
    (hw : w ∈ W) :
    o.value (m'.read w.1 w.2) =
      o.swap.value (m.read w.1 w.2) := by
  rw [h.inside w hw, ByteOrder.value_reverse]

theorem value_eq_iff
    (h : Reversed W m m')
    (o : ByteOrder)
    {w : Word}
    (hw : w ∈ W) :
    o.value (m'.read w.1 w.2) = o.value (m.read w.1 w.2) ↔
      (m.read w.1 w.2).reverse = m.read w.1 w.2 := by
  rw [h.inside w hw]
  constructor
  · exact o.value_inj (by simp)
  · intro hEq
    rw [hEq]

end Reversed

theorem reversed_nil
    (m : ByteMem) :
    Reversed [] m m :=
  ⟨by simp, fun _ _ => rfl⟩

theorem reversed_swapAt
    (m : ByteMem)
    (p : Int)
    (n : Nat) :
    Reversed [(p, n)] m (m.swapAt p n) where
  inside := by
    intro w hw
    rw [List.mem_singleton.mp hw]
    exact read_swapAt_self m p n
  outside := by
    intro i hMiss
    exact swapAt_of_outside m (hMiss (p, n) (by simp))

/- `k` consecutive words of `w` bytes. -/
def Word.run (p : Int) (w k : Nat) : List Word :=
  (List.range k).map (fun j : Nat => (p + j * w, w))

theorem reversed_swapWords
    (m : ByteMem)
    (p : Int)
    (w k : Nat) :
    Reversed (Word.run p w k) m (m.swapWords p w k) := by
  induction k with
  | zero => exact reversed_nil m
  | succ k ih =>
      have hSplit :
          Word.run p w (k + 1) =
            Word.run p w k ++ [(p + k * w, w)] := by
        simp [Word.run, List.range_succ]
      rw [hSplit]
      refine ih.append (reversed_swapAt _ _ _) ?_
      intro a ha b hb
      rcases List.mem_map.mp ha with ⟨j, hj, rfl⟩
      rw [List.mem_singleton.mp hb]
      have hLt : j < k := List.mem_range.mp hj
      left
      have hStep : ((j + 1 : Nat) : Int) * w ≤ k * w := by
        gcongr
        exact hLt
      push_cast at hStep
      simp only
      linarith

end ByteMem
