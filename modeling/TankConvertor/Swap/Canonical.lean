import TankConvertor.Library.Reversal
import TankConvertor.Swap.Correctness

/-
  The message in the host's order is the message in its own
  order with its words reversed, and the two routines lead
  to one such form for each host.

  Key definitions include:
    * `MakelocalRoutine`
    * `messageWords`
    * `Normalised`

  Key theorems include:
    * `reversed_swapHeader`
    * `localMessage_eq_of_foreign`
    * `makelocal_canonical`
-/

------------------------------------------------------------
-- The Words Of A Message
------------------------------------------------------------

namespace TankConvertor

open Trace2Header

/- The two routines that the version tells apart. -/
inductive MakelocalRoutine where
| wavemsg
| wavemsg2
deriving DecidableEq, Repr

namespace MakelocalRoutine

/- The version that the routine hands on. -/
def version
    (r : MakelocalRoutine)
    (m : ByteMem)
    (p : Int) :
    UInt8 :=
  match r with
  | .wavemsg => ch '1'
  | .wavemsg2 => version0 m p

def run
    [Rounding]
    (r : MakelocalRoutine)
    (host : ByteOrder)
    (m : ByteMem)
    (p : Int) :
    Int × ByteMem :=
  match r with
  | .wavemsg => swapWavemsgMakelocal host m p
  | .wavemsg2 => swapWavemsg2Makelocal host m p

theorem run_eq
    [Rounding]
    (r : MakelocalRoutine)
    (host : ByteOrder)
    (m : ByteMem)
    (p : Int) :
    r.run host m p =
      makelocalWavemsgVer host m p (r.version m p) := by
  cases r <;> rfl

end MakelocalRoutine

/- The five numbers every header has. -/
def numberWords (p : Int) : List ByteMem.Word :=
  [(p, 4), (p + 4, 4), (p + 8, 8), (p + 16, 8), (p + 24, 8)]

/- The conversion factor is there in version 21 only. -/
def HasFactor (v : UInt8) (m : ByteMem) (p : Int) : Prop :=
  v = ch '2' ∧ version1 m p = ch '1'

instance (v : UInt8) (m : ByteMem) (p : Int) :
    Decidable (HasFactor v m p) := by
  unfold HasFactor
  infer_instance

def factorWords
    (v : UInt8)
    (m : ByteMem)
    (p : Int) :
    List ByteMem.Word :=
  if HasFactor v m p then [(p + 60, 4)] else []

/- All numbers of a header. -/
def headerWords
    (v : UInt8)
    (m : ByteMem)
    (p : Int) :
    List ByteMem.Word :=
  numberWords p ++ factorWords v m p

/- The samples; a negative count counts as none. -/
def sampleWords
    (p : Int)
    (k : SampleKind)
    (n : Int) :
    List ByteMem.Word :=
  ByteMem.Word.run (samples p) k.width n.toNat

def messageWords
    (v : UInt8)
    (m : ByteMem)
    (p : Int)
    (k : SampleKind)
    (n : Int) :
    List ByteMem.Word :=
  headerWords v m p ++ sampleWords p k n

/- Where the words of a header lie. -/
theorem headerWords_range
    {v : UInt8}
    {m : ByteMem}
    {p : Int}
    {w : ByteMem.Word}
    (hw : w ∈ headerWords v m p) :
    p ≤ w.1 ∧
      (w.1 + w.2 ≤ p + 32 ∨
        (p + 60 ≤ w.1 ∧ w.1 + w.2 ≤ p + 64)) := by
  rcases List.mem_append.mp hw with hNumber | hFactor
  · simp only [numberWords, List.mem_cons,
      List.not_mem_nil, or_false] at hNumber
    rcases hNumber with rfl | rfl | rfl | rfl | rfl <;>
      simp only <;> omega
  · unfold factorWords at hFactor
    split at hFactor
    · rw [List.mem_singleton.mp hFactor]
      simp only
      omega
    · cases hFactor

theorem sampleWords_range
    {p : Int}
    {k : SampleKind}
    {n : Int}
    {w : ByteMem.Word}
    (hw : w ∈ sampleWords p k n) :
    p + 64 ≤ w.1 := by
  rcases List.mem_map.mp hw with ⟨j, _, rfl⟩
  have hNonneg : (0 : Int) ≤ (j : Int) * k.width := by
    positivity
  unfold samples
  simp only
  omega

/- The characters of a header belong to no word. -/
theorem messageWords_misses
    {v : UInt8}
    {m : ByteMem}
    {p i : Int}
    {k : SampleKind}
    {n : Int}
    (hLow : p + 32 ≤ i)
    (hHigh : i < p + 60) :
    ByteMem.Word.Misses (messageWords v m p k n) i := by
  intro w hw
  rcases List.mem_append.mp hw with hHeader | hSample
  · have hRange := headerWords_range hHeader
    omega
  · have hRange := sampleWords_range hSample
    omega

------------------------------------------------------------
-- Swapping Reverses The Words
------------------------------------------------------------

section

variable (host o : ByteOrder)
variable (m : ByteMem) (p : Int) (v : UInt8)
variable (k : SampleKind)

/- The five swaps that every header undergoes. -/
def swapNumbers : ByteMem :=
  ((((m.swapAt p 4).swapAt (p + 4) 4).swapAt
    (p + 8) 8).swapAt (p + 16) 8).swapAt (p + 24) 8

theorem reversed_swapNumbers :
    ByteMem.Reversed (numberWords p) m (swapNumbers m p) := by
  have h₁ := ByteMem.reversed_swapAt m p 4
  have h₂ := h₁.append (ByteMem.reversed_swapAt _ (p + 4) 4)
    (by simp [ByteMem.Word.Apart])
  have h₃ := h₂.append (ByteMem.reversed_swapAt _ (p + 8) 8)
    (by simp [ByteMem.Word.Apart]; omega)
  have h₄ := h₃.append (ByteMem.reversed_swapAt _ (p + 16) 8)
    (by simp [ByteMem.Word.Apart]; omega)
  exact h₄.append (ByteMem.reversed_swapAt _ (p + 24) 8)
    (by simp [ByteMem.Word.Apart]; omega)

theorem swapHeader_eq :
    swapHeader m p v =
      if HasFactor v m p then
        (swapNumbers m p).swapAt (p + 60) 4
      else
        swapNumbers m p := by
  have hSame :
      version1 (swapNumbers m p) p = version1 m p := by
    apply (reversed_swapNumbers m p).outside
    intro w hw
    have hRange : w ∈ headerWords v m p :=
      List.mem_append_left _ hw
    have hIn := headerWords_range hRange
    simp only [numberWords, List.mem_cons,
      List.not_mem_nil, or_false] at hw
    rcases hw with rfl | rfl | rfl | rfl | rfl <;>
      simp only <;> omega
  change
    (if v = ch '2' then
      if version1 (swapNumbers m p) p = ch '1' then
        (swapNumbers m p).swapAt (p + 60) 4
      else swapNumbers m p
    else swapNumbers m p) = _
  rw [hSame]
  by_cases hFactor : HasFactor v m p
  · rw [if_pos hFactor, if_pos hFactor.1, if_pos hFactor.2]
  · rw [if_neg hFactor]
    split
    · rename_i hTwo
      exact if_neg (fun hOne => hFactor ⟨hTwo, hOne⟩)
    · rfl

/- Swapping the header reverses its numbers. -/
theorem reversed_swapHeader :
    ByteMem.Reversed (headerWords v m p) m
      (swapHeader m p v) := by
  rw [swapHeader_eq]
  unfold headerWords factorWords
  split
  · refine (reversed_swapNumbers m p).append
      (ByteMem.reversed_swapAt _ _ _) ?_
    simp [ByteMem.Word.Apart, numberWords]
    omega
  · rw [List.append_nil]
    exact reversed_swapNumbers m p

/- The message with all its words reversed. -/
def reverseMessage : ByteMem :=
  (swapHeader m p v).swapWords (samples p) k.width
    (nsamp o m p).toNat

theorem reversed_reverseMessage :
    ByteMem.Reversed (messageWords v m p k (nsamp o m p)) m
      (reverseMessage o m p v k) := by
  refine (reversed_swapHeader m p v).append
    (ByteMem.reversed_swapWords _ _ _ _) ?_
  intro w hw u hu
  have hHeader := headerWords_range hw
  have hSample := sampleWords_range hu
  omega

variable {host o m p v k}

/- A foreign message is reversed, and its letter changed. -/
theorem localMessage_eq_of_foreign
    (hForeign : o ≠ host)
    (hKind :
      kindOf (datatype0 m p) (datatype1 m p) = some (o, k)) :
    localMessage host o m p v k =
      (reverseMessage o m p v k).set (p + 57)
        (k.letter host) := by
  rcases eq_of_kindOf hKind with ⟨_, hDigit⟩
  have hWidth :
      ch '0' + UInt8.ofNat k.width = datatype1 m p := by
    rw [hDigit]
    cases k <;> decide
  have hByte :
      ((reverseMessage o m p v k).set (p + 57)
        (k.letter host)) (p + 58) =
        ch '0' + UInt8.ofNat k.width := by
    rw [hWidth, ByteMem.set_of_ne _ _ (by omega)]
    exact (reversed_reverseMessage o m p v k).outside _
      (messageWords_misses (by omega) (by omega))
  unfold localMessage
  rw [if_neg hForeign]
  unfold localHeader
  rw [if_neg hForeign]
  change
    ((reverseMessage o m p v k).set (p + 57)
      (k.letter host)).set (p + 58)
        (ch '0' + UInt8.ofNat k.width) = _
  rw [← hByte, ByteMem.set_eq_self]

end

------------------------------------------------------------
-- The Normal Form
------------------------------------------------------------

/-
  The message, read in the order that its datatype named,
  and the memory that is left, read in the host's order,
  have the same numbers as bit patterns; the letter is the
  host's, and no byte elsewhere is touched.
-/
structure Normalised
    (r : MakelocalRoutine)
    (host o : ByteOrder)
    (k : SampleKind)
    (m m' : ByteMem)
    (p : Int) : Prop where
  pinno : pinno host m' p = pinno o m p
  nsamp : nsamp host m' p = nsamp o m p
  starttime :
    host.value (m'.read (p + 8) 8) =
      o.value (m.read (p + 8) 8)
  endtime :
    host.value (m'.read (p + 16) 8) =
      o.value (m.read (p + 16) 8)
  samprate :
    host.value (m'.read (p + 24) 8) =
      o.value (m.read (p + 24) 8)
  factor :
    HasFactor (r.version m p) m p →
      host.value (m'.read (p + 60) 4) =
        o.value (m.read (p + 60) 4)
  samples :
    ∀ j : Nat, (j : Int) < Trace2Header.nsamp o m p →
      host.value
          (m'.read (p + 64 + j * k.width) k.width) =
        o.value (m.read (p + 64 + j * k.width) k.width)
  datatype :
    kindOf (datatype0 m' p) (datatype1 m' p) = some (host, k)
  letter : datatype0 m' p = k.letter host
  others :
    ∀ i, i ≠ p + 57 →
      ByteMem.Word.Misses
          (messageWords (r.version m p) m p k
            (Trace2Header.nsamp o m p)) i →
        m' i = m i

section

variable (host : ByteOrder) {o : ByteOrder}
variable {m : ByteMem} {p : Int} (v : UInt8)
variable {k : SampleKind}

/-
  A word of the message is the same number, in the host's
  order, once the message is local.
-/
theorem value_localMessage
    (hKind :
      kindOf (datatype0 m p) (datatype1 m p) = some (o, k))
    {w : ByteMem.Word}
    (hw : w ∈ messageWords v m p k (nsamp o m p)) :
    host.value
        ((localMessage host o m p v k).read w.1 w.2) =
      o.value (m.read w.1 w.2) := by
  by_cases hEq : o = host
  · rw [localMessage, if_pos hEq, hEq]
  · have hApart : p + 57 < w.1 ∨ w.1 + w.2 ≤ p + 57 := by
      rcases List.mem_append.mp hw with hHeader | hSample
      · have hRange := headerWords_range hHeader
        omega
      · have hRange := sampleWords_range hSample
        omega
    rw [localMessage_eq_of_foreign hEq hKind,
      ByteMem.read_set_of_outside _ _ hApart,
      (reversed_reverseMessage o m p v k).value_eq host hw]
    cases o <;> cases host <;>
      first
      | exact (hEq rfl).elim
      | rfl

/- Other bytes stay, but for the datatype letter. -/
theorem localMessage_of_misses
    (hKind :
      kindOf (datatype0 m p) (datatype1 m p) = some (o, k))
    {i : Int}
    (hLetter : i ≠ p + 57)
    (hMiss :
      ByteMem.Word.Misses
        (messageWords v m p k (nsamp o m p)) i) :
    localMessage host o m p v k i = m i := by
  by_cases hEq : o = host
  · rw [localMessage, if_pos hEq]
  · rw [localMessage_eq_of_foreign hEq hKind,
      ByteMem.set_of_ne _ _ hLetter]
    exact (reversed_reverseMessage o m p v k).outside i hMiss

/- The datatype then names the host's order. -/
theorem datatype_localMessage
    (hKind :
      kindOf (datatype0 m p) (datatype1 m p) = some (o, k)) :
    datatype0 (localMessage host o m p v k) p =
        k.letter host ∧
      datatype1 (localMessage host o m p v k) p = k.digit := by
  rcases eq_of_kindOf hKind with ⟨hLetter, hDigit⟩
  constructor
  · by_cases hEq : o = host
    · rw [localMessage, if_pos hEq, hLetter, hEq]
    · rw [localMessage_eq_of_foreign hEq hKind]
      exact ByteMem.set_self _ _ _
  · rw [← hDigit]
    exact localMessage_of_misses host v hKind (by omega)
      (messageWords_misses (by omega) (by omega))

/- The version is no word of the message. -/
theorem version_localMessage
    (r : MakelocalRoutine)
    (hKind :
      kindOf (datatype0 m p) (datatype1 m p) = some (o, k)) :
    r.version (localMessage host o m p v k) p =
        r.version m p ∧
      version1 (localMessage host o m p v k) p =
        version1 m p := by
  have hSame :
      ∀ i, p + 32 ≤ i → i < p + 57 →
        localMessage host o m p v k i = m i := by
    intro i hLow hHigh
    exact localMessage_of_misses host v hKind (by omega)
      (messageWords_misses hLow (by omega))
  refine ⟨?_, hSame _ (by omega) (by omega)⟩
  cases r with
  | wavemsg => rfl
  | wavemsg2 => exact hSame _ (by omega) (by omega)

/- Turning a foreign message back gives it as it was. -/
theorem localMessage_localMessage
    (hForeign : o ≠ host)
    (hKind :
      kindOf (datatype0 m p) (datatype1 m p) = some (o, k)) :
    localMessage o host (localMessage host o m p v k) p v k =
      m := by
  let m' := localMessage host o m p v k
  have hType := datatype_localMessage host v hKind
  have hKind' :
      kindOf (datatype0 m' p) (datatype1 m' p) =
        some (host, k) := by
    change
      kindOf (datatype0 (localMessage host o m p v k) p)
        (datatype1 (localMessage host o m p v k) p) = _
    rw [hType.1, hType.2, kindOf_letter]
  have hCount : nsamp host m' p = nsamp o m p :=
    (readsAs_localMessage host o m p v k).nsamp
  have hWords :
      messageWords v m' p k (nsamp host m' p) =
        messageWords v m p k (nsamp o m p) := by
    have hOne : version1 m' p = version1 m p :=
      (version_localMessage host v .wavemsg hKind).2
    have hFactor : HasFactor v m' p ↔ HasFactor v m p := by
      unfold HasFactor
      rw [hOne]
    rw [hCount]
    simp only [messageWords, headerWords, factorWords, hFactor]
  have hMiss :
      ByteMem.Word.Misses
        (messageWords v m p k (nsamp o m p)) (p + 57) :=
    messageWords_misses (by omega) (by omega)
  have hBack :
      reverseMessage host m' p v k =
        m.set (p + 57) (k.letter host) := by
    have hOnce := reversed_reverseMessage host m' p v k
    rw [hWords] at hOnce
    have hTwice :=
      ((reversed_reverseMessage o m p v k).symm).set
        (k.letter host) hMiss
    rw [← localMessage_eq_of_foreign hForeign hKind] at hTwice
    exact hOnce.unique hTwice
  have hLetter : k.letter o = m (p + 57) :=
    (eq_of_kindOf hKind).1.symm
  rw [localMessage_eq_of_foreign (Ne.symm hForeign) hKind',
    hBack, hLetter]
  funext i
  by_cases hi : i = p + 57
  · rw [hi, ByteMem.set_self]
  · rw [ByteMem.set_of_ne _ _ hi, ByteMem.set_of_ne _ _ hi]

end

------------------------------------------------------------
-- One Form For Each Host
------------------------------------------------------------

section

variable {r : MakelocalRoutine} {host : ByteOrder}
variable {m : ByteMem} {p : Int}

/- What success says about the message. -/
theorem success_cases
    [Rounding]
    (hRc : (r.run host m p).1 = 0) :
    ∃ o k,
      kindOf (datatype0 m p) (datatype1 m p) = some (o, k) ∧
        nsamp o m p ≤ k.capacity ∧ ¬ Inconsistent o m p := by
  rw [r.run_eq] at hRc
  cases hKind : kindOf (datatype0 m p) (datatype1 m p) with
  | none =>
      rw [makelocalWavemsgVer_of_unknown _ _ _ _ hKind] at hRc
      exact absurd hRc (by simp)
  | some ok =>
      obtain ⟨o, k⟩ := ok
      rw [makelocalWavemsgVer_of_kind _ _ _ _ _ hKind] at hRc
      by_cases hMany : (k.capacity : Int) < nsamp o m p
      · rw [if_pos hMany] at hRc
        exact absurd hRc (by simp)
      · by_cases hBad : Inconsistent o m p
        · rw [if_neg hMany, if_pos hBad] at hRc
          exact absurd hRc (by simp)
        · exact ⟨o, k, rfl, not_lt.mp hMany, hBad⟩

/- Success on one host is success on each. -/
theorem run_of_success
    [Rounding]
    {o : ByteOrder}
    {k : SampleKind}
    (hKind :
      kindOf (datatype0 m p) (datatype1 m p) = some (o, k))
    (hFew : nsamp o m p ≤ k.capacity)
    (hGood : ¬ Inconsistent o m p)
    (host : ByteOrder) :
    r.run host m p =
      (0, localMessage host o m p (r.version m p) k) := by
  rw [r.run_eq, makelocalWavemsgVer_of_kind _ _ _ _ _ hKind,
    if_neg (not_lt.mpr hFew), if_neg hGood]

/- The memory left is the normal form of the message. -/
theorem normalised_localMessage
    {o : ByteOrder}
    {k : SampleKind}
    (hKind :
      kindOf (datatype0 m p) (datatype1 m p) = some (o, k)) :
    Normalised r host o k m
      (localMessage host o m p (r.version m p) k) p := by
  have hType :=
    datatype_localMessage host (r.version m p) hKind
  have hNumber :
      ∀ w ∈ numberWords p,
        host.value
            ((localMessage host o m p (r.version m p) k).read
              w.1 w.2) =
          o.value (m.read w.1 w.2) := by
    intro w hw
    exact value_localMessage host _ hKind
      (List.mem_append_left _ (List.mem_append_left _ hw))
  have hPinno := hNumber (p, 4) (by simp [numberWords])
  constructor
  · unfold Trace2Header.pinno
    rw [hPinno]
  · exact (readsAs_localMessage host o m p _ k).nsamp
  · exact hNumber (p + 8, 8) (by simp [numberWords])
  · exact hNumber (p + 16, 8) (by simp [numberWords])
  · exact hNumber (p + 24, 8) (by simp [numberWords])
  · intro hFactor
    apply value_localMessage host _ hKind (w := (p + 60, 4))
    apply List.mem_append_left
    apply List.mem_append_right
    simp [factorWords, hFactor]
  · intro j hj
    apply value_localMessage host _ hKind
      (w := (p + 64 + (j : Int) * k.width, k.width))
    apply List.mem_append_right
    exact List.mem_map.mpr
      ⟨j, List.mem_range.mpr (by omega), rfl⟩
  · rw [hType.1, hType.2, kindOf_letter]
  · exact hType.1
  · intro i hi hMiss
    exact localMessage_of_misses host _ hKind hi hMiss

/- Going on from one host's form leads to each other one. -/
theorem run_localMessage
    [Rounding]
    {o : ByteOrder}
    {k : SampleKind}
    (hKind :
      kindOf (datatype0 m p) (datatype1 m p) = some (o, k))
    (hFew : nsamp o m p ≤ k.capacity)
    (hGood : ¬ Inconsistent o m p)
    (host host' : ByteOrder) :
    r.run host'
        (localMessage host o m p (r.version m p) k) p =
      r.run host' m p := by
  let m' := localMessage host o m p (r.version m p) k
  have hReads : ReadsAs host o m m' p :=
    readsAs_localMessage host o m p _ k
  have hKind' :
      kindOf (datatype0 m' p) (datatype1 m' p) =
        some (host, k) := by
    rcases datatype_localMessage host (r.version m p) hKind
      with ⟨hLetter, hDigit⟩
    rw [hLetter, hDigit, kindOf_letter]
  have hBad' : ¬ Inconsistent host m' p := by
    unfold Inconsistent at hGood ⊢
    rw [hReads.nsamp, hReads.starttime, hReads.endtime,
      hReads.samprate]
    exact hGood
  have hFew' : nsamp host m' p ≤ k.capacity := by
    rw [hReads.nsamp]
    exact hFew
  have hVersion : r.version m' p = r.version m p :=
    (version_localMessage host _ r hKind).1
  rw [run_of_success hKind hFew hGood,
    run_of_success hKind' hFew' hBad', hVersion]
  by_cases hEq : o = host
  · have hSame : m' = m := if_pos hEq
    rw [hSame, hEq]
  · by_cases hHost : host' = host
    · rw [hHost, localMessage, if_pos rfl]
    · have hOther : host' = o := by
        cases o <;> cases host <;> cases host' <;> simp_all
      rw [hOther, localMessage_localMessage host _ hEq hKind,
        localMessage, if_pos rfl]

/-
  After a success the memory is the normal form of the
  message; calling again changes nothing, and the other
  host's form is reached from it as from the message.
-/
structure Canonical
    [Rounding]
    (r : MakelocalRoutine)
    (host : ByteOrder)
    (m : ByteMem)
    (p : Int) : Prop where
  normalised :
    ∃ o k,
      kindOf (datatype0 m p) (datatype1 m p) = some (o, k) ∧
        Normalised r host o k m (r.run host m p).2 p
  idempotent :
    r.run host (r.run host m p).2 p =
      (0, (r.run host m p).2)
  opposite :
    r.run host.swap (r.run host m p).2 p =
      (0, (r.run host.swap m p).2)

end

/- Normalisation keeps the meaning and is canonical. -/
theorem makelocal_canonical
    [Rounding]
    (r : MakelocalRoutine)
    (host : ByteOrder)
    (m : ByteMem)
    (p : Int)
    (hRc : (r.run host m p).1 = 0) :
    Canonical r host m p := by
  rcases success_cases hRc with ⟨o, k, hKind, hFew, hGood⟩
  have hRun := run_of_success (r := r) hKind hFew hGood
  have hAgain := run_localMessage (r := r) hKind hFew hGood host
  refine ⟨⟨o, k, hKind, ?_⟩, ?_, ?_⟩
  · rw [hRun host]
    exact normalised_localMessage hKind
  · rw [hRun host]
    exact (hAgain host).trans (hRun host)
  · rw [hRun host, hRun host.swap]
    exact (hAgain host.swap).trans (hRun host.swap)

/- Memory that holds a message at address 0. -/
def atZero (bs : List UInt8) : ByteMem :=
  fun i => bs.getD i.toNat 0

/-
  A big-endian header with one 4-byte sample, at one sample
  a second, that starts at 0.
-/
def bigHeader (endtime : List UInt8) : List UInt8 :=
  [0, 0, 0, 7] ++ [0, 0, 0, 1] ++ List.replicate 8 0 ++
    endtime ++ [0x3F, 0xF0, 0, 0, 0, 0, 0, 0] ++
    List.replicate 23 0 ++ [ch '2', ch '1', ch 's', ch '4', 0] ++
    [1, 2, 3, 4] ++ [5, 6, 7, 8]

attribute [local instance] Rounding.nearest

/- A message of version 21, with its conversion factor. -/
theorem makelocal_canonical_big :
    Canonical .wavemsg2 .little
      (atZero (bigHeader (List.replicate 8 0))) 0 :=
  makelocal_canonical .wavemsg2 .little
    (atZero (bigHeader (List.replicate 8 0))) 0
    (by decide +kernel)

end TankConvertor
