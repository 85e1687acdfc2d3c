import TankConvertor.Swap.Canonical

/-
  What is left of a message that the routine refuses: the
  numbers of a foreign header are already swapped when the
  checks are made, and the datatype still names the old
  order.

  Key definitions include:
    * `Decoded` and `decode`
    * `RefusedKeeps`
    * `Unharmed`

  Key theorems include:
    * `refused_keeps_iff`
    * `halfSwapped_not_kept`
-/

------------------------------------------------------------
-- Decoding A Message
------------------------------------------------------------

namespace TankConvertor

open Trace2Header

/- The values of a message, all as bit patterns. -/
structure Decoded where
  numbers : List Nat
  factor : List Nat
  samples : List Nat
deriving DecidableEq, Repr

/- The numbers at some words, in one order. -/
def valuesAt
    (o : ByteOrder)
    (m : ByteMem)
    (W : List ByteMem.Word) :
    List Nat :=
  W.map (fun w => o.value (m.read w.1 w.2))

/- Header and samples in the order that the datatype names. -/
def decode (m : ByteMem) (p : Int) : Option Decoded :=
  match kindOf (datatype0 m p) (datatype1 m p) with
  | none => none
  | some (o, k) =>
      some
        { numbers := valuesAt o m (numberWords p)
          factor :=
            valuesAt o m (factorWords (version0 m p) m p)
          samples :=
            valuesAt o m (sampleWords p k (nsamp o m p)) }

/- Reversed words read alike only if they are palindromes. -/
theorem valuesAt_reversed_iff
    {W V : List ByteMem.Word}
    {m m' : ByteMem}
    (h : ByteMem.Reversed W m m')
    (o : ByteOrder)
    (hSub : ∀ w ∈ V, w ∈ W) :
    valuesAt o m' V = valuesAt o m V ↔
      ∀ w ∈ V,
        (m.read w.1 w.2).reverse = m.read w.1 w.2 := by
  unfold valuesAt
  rw [List.map_inj_left]
  constructor
  · intro hSame w hw
    exact (h.value_eq_iff o (hSub w hw)).mp (hSame w hw)
  · intro hPal w hw
    exact (h.value_eq_iff o (hSub w hw)).mpr (hPal w hw)

------------------------------------------------------------
-- Refused Messages
------------------------------------------------------------

/-
  A refused message reads as before in the order that its
  datatype names, and is refused again with the same code.
-/
structure RefusedKeeps
    [Rounding]
    (host : ByteOrder)
    (m : ByteMem)
    (p : Int) : Prop where
  values : decode (swapWavemsg2Makelocal host m p).2 p = decode m p
  again :
    (swapWavemsg2Makelocal host
      (swapWavemsg2Makelocal host m p).2 p).1 =
      (swapWavemsg2Makelocal host m p).1

/-
  The datatype is unknown or of the host's order, or every
  number of the header is a palindrome.
-/
def Unharmed
    (host : ByteOrder)
    (m : ByteMem)
    (p : Int) : Prop :=
  ∀ o k,
    kindOf (datatype0 m p) (datatype1 m p) = some (o, k) →
      o ≠ host →
        ∀ w ∈ headerWords (version0 m p) m p,
          (m.read w.1 w.2).reverse = m.read w.1 w.2

section

variable (host : ByteOrder) (m : ByteMem) (p : Int)

/- A refused message has its header in the host's order. -/
theorem memory_of_refused
    [Rounding]
    (hRc : (swapWavemsg2Makelocal host m p).1 ≠ 0) :
    (kindOf (datatype0 m p) (datatype1 m p) = none ∧
      (swapWavemsg2Makelocal host m p).2 = m) ∨
    ∃ o k,
      kindOf (datatype0 m p) (datatype1 m p) = some (o, k) ∧
        (swapWavemsg2Makelocal host m p).2 =
          localHeader host o m p (version0 m p) := by
  rcases swapWavemsg2Makelocal_cases host m p with
    ⟨hKind, hRes⟩ | ⟨o, k, hKind, hExit⟩
  · left
    rw [hRes]
    exact ⟨hKind, rfl⟩
  · right
    refine ⟨o, k, hKind, ?_⟩
    rcases hExit with ⟨_, hRes⟩ | ⟨_, _, hRes⟩ | ⟨_, _, hRes⟩
    · rw [hRes]
    · rw [hRes]
    · rw [hRes] at hRc
      exact (hRc rfl).elim

variable {host m p}

/- Swapping palindromes changes nothing. -/
theorem swapHeader_of_palindromes
    {v : UInt8}
    (hPal :
      ∀ w ∈ headerWords v m p,
        (m.read w.1 w.2).reverse = m.read w.1 w.2) :
    swapHeader m p v = m := by
  refine (reversed_swapHeader m p v).unique ⟨?_, ?_⟩
  · intro w hw
    exact (hPal w hw).symm
  · intro i _
    rfl

/- An unharmed message is left exactly as it was. -/
theorem memory_of_unharmed
    [Rounding]
    (hRc : (swapWavemsg2Makelocal host m p).1 ≠ 0)
    (hUnharmed : Unharmed host m p) :
    (swapWavemsg2Makelocal host m p).2 = m := by
  rcases memory_of_refused host m p hRc with
    ⟨_, hMem⟩ | ⟨o, k, hKind, hMem⟩
  · exact hMem
  · rw [hMem]
    by_cases hEq : o = host
    · rw [hEq, localHeader_self]
    · rw [localHeader, if_neg hEq]
      exact swapHeader_of_palindromes
        (hUnharmed o k hKind hEq)

/- The characters of a header survive the swap. -/
theorem swapHeader_of_characters
    (v : UInt8)
    {i : Int}
    (hLow : p + 32 ≤ i)
    (hHigh : i < p + 60) :
    swapHeader m p v i = m i :=
  swapHeader_of_outside m v (by omega)

/- The words of the numbers lie where they lay. -/
theorem factorWords_swapHeader
    (v v' : UInt8) :
    factorWords v (swapHeader m p v') p =
      factorWords v m p := by
  have hOne :
      version1 (swapHeader m p v') p = version1 m p :=
    swapHeader_of_characters v' (by omega) (by omega)
  have hFactor :
      HasFactor v (swapHeader m p v') p ↔ HasFactor v m p := by
    unfold HasFactor
    rw [hOne]
  simp only [factorWords, hFactor]

/- A harmed message decodes to other values. -/
theorem unharmed_of_decode
    [Rounding]
    (hRc : (swapWavemsg2Makelocal host m p).1 ≠ 0)
    (hSame :
      decode (swapWavemsg2Makelocal host m p).2 p =
        decode m p) :
    Unharmed host m p := by
  intro o k hKind hForeign
  rcases memory_of_refused host m p hRc with
    ⟨hNone, _⟩ | ⟨o', k', hKind', hMem⟩
  · rw [hNone] at hKind
    cases hKind
  · obtain ⟨rfl, rfl⟩ : o = o' ∧ k = k' := by
      have hEq := Option.some.inj (hKind.symm.trans hKind')
      exact Prod.mk.inj hEq
    rw [hMem, localHeader, if_neg hForeign] at hSame
    have hType₀ :
        datatype0 (swapHeader m p (version0 m p)) p =
          datatype0 m p :=
      swapHeader_of_characters _ (by omega) (by omega)
    have hType₁ :
        datatype1 (swapHeader m p (version0 m p)) p =
          datatype1 m p :=
      swapHeader_of_characters _ (by omega) (by omega)
    have hVersion :
        version0 (swapHeader m p (version0 m p)) p =
          version0 m p :=
      swapHeader_of_characters _ (by omega) (by omega)
    unfold decode at hSame
    rw [hType₀, hType₁, hKind] at hSame
    simp only [hVersion, factorWords_swapHeader,
      Option.some.injEq, Decoded.mk.injEq] at hSame
    have hReversed :=
      reversed_swapHeader m p (version0 m p)
    intro w hw
    rcases List.mem_append.mp hw with hNumber | hFactor
    · exact (valuesAt_reversed_iff hReversed o
        (fun _ h => List.mem_append_left _ h)).mp hSame.1
        w hNumber
    · exact (valuesAt_reversed_iff hReversed o
        (fun _ h => List.mem_append_right _ h)).mp hSame.2.1
        w hFactor

end

/-
  A refusal keeps the message exactly when there was nothing
  to swap.
-/
theorem refused_keeps_iff
    [Rounding]
    (host : ByteOrder)
    (m : ByteMem)
    (p : Int)
    (hRc : (swapWavemsg2Makelocal host m p).1 ≠ 0) :
    RefusedKeeps host m p ↔ Unharmed host m p := by
  constructor
  · intro hKeeps
    exact unharmed_of_decode hRc hKeeps.values
  · intro hUnharmed
    have hMem := memory_of_unharmed hRc hUnharmed
    exact ⟨by rw [hMem], by rw [hMem]⟩

attribute [local instance] Rounding.nearest

/- A header of the host's order, with a wrong end time. -/
theorem refused_keeps_native :
    RefusedKeeps .big
      (atZero (bigHeader [0x40, 0x59, 0, 0, 0, 0, 0, 0])) 0 := by
  refine (refused_keeps_iff .big
    (atZero (bigHeader [0x40, 0x59, 0, 0, 0, 0, 0, 0])) 0
    (by decide +kernel)).mpr ?_
  intro o k hKind hForeign
  have hBig :
      kindOf
          (datatype0
            (atZero
              (bigHeader [0x40, 0x59, 0, 0, 0, 0, 0, 0])) 0)
          (datatype1
            (atZero
              (bigHeader [0x40, 0x59, 0, 0, 0, 0, 0, 0])) 0) =
        some (.big, .i4) := by
    decide +kernel
  rw [hBig] at hKind
  cases hKind
  exact (hForeign rfl).elim

/-
  The same header on the other host: inconsistent at first,
  it has too many samples when it is looked at again.
-/
theorem halfSwapped_not_kept :
    (swapWavemsg2Makelocal .little
      (atZero (bigHeader [0x40, 0x59, 0, 0, 0, 0, 0, 0]))
      0).1 = -2 ∧
    (swapWavemsg2Makelocal .little
      (swapWavemsg2Makelocal .little
        (atZero (bigHeader [0x40, 0x59, 0, 0, 0, 0, 0, 0]))
        0).2 0).1 = -1 ∧
    ¬ RefusedKeeps .little
      (atZero (bigHeader [0x40, 0x59, 0, 0, 0, 0, 0, 0]))
      0 := by
  have hFirst :
      (swapWavemsg2Makelocal .little
        (atZero (bigHeader [0x40, 0x59, 0, 0, 0, 0, 0, 0]))
        0).1 = -2 := by
    decide +kernel
  have hSecond :
      (swapWavemsg2Makelocal .little
        (swapWavemsg2Makelocal .little
          (atZero
            (bigHeader [0x40, 0x59, 0, 0, 0, 0, 0, 0]))
          0).2 0).1 = -1 := by
    decide +kernel
  refine ⟨hFirst, hSecond, ?_⟩
  intro hKeeps
  have hAgain := hKeeps.again
  rw [hFirst, hSecond] at hAgain
  exact absurd hAgain (by decide)

end TankConvertor
