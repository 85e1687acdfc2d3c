import Mathlib.Data.Nat.Digits.Defs
import Mathlib.Data.Nat.Digits.Lemmas
import Mathlib.Data.Nat.Bitwise
import Mathlib.Tactic

/-
  Cyclic redundancy checks that take the lowest bit first.

  A message is a list of digits of `m` bits, each of which is
  added to the register before `m` steps of the division.
  Reading tables for several digits at once gives the same,
  and no change within as many bits as the register has goes
  unnoticed.

  Key definitions include:
    * `Crc.step` and `Crc.steps`
    * `Crc.feed`
    * `Crc.sliced`

  Key theorems include:
    * `Crc.steps_xor`
    * `Crc.feed_eq_steps`
    * `Crc.steps_ofDigits`
    * `Crc.feed_bits`
    * `Crc.feed_burst_ne`
-/

------------------------------------------------------------
-- Steps Of The Division
------------------------------------------------------------

namespace Crc

variable {w : Nat}

/- Shift, and subtract the polynomial when a bit goes out. -/
def step (poly c : BitVec w) : BitVec w :=
  (c >>> 1) ^^^ (if c.getLsbD 0 then poly else 0#w)

def steps (poly : BitVec w) : Nat → BitVec w → BitVec w
| 0, c => c
| n + 1, c => steps poly n (step poly c)

/- A step is linear. -/
theorem step_xor
    (poly a b : BitVec w) :
    step poly (a ^^^ b) = step poly a ^^^ step poly b := by
  unfold step
  rw [BitVec.ushiftRight_xor_distrib, BitVec.getLsbD_xor]
  cases a.getLsbD 0 <;> cases b.getLsbD 0
  · simp
  · simp [BitVec.xor_assoc]
  · simp only [Bool.bne_false, if_true, Bool.false_eq_true,
      if_false, BitVec.xor_zero]
    ac_rfl
  · have hCancel :
        (a >>> 1 ^^^ poly) ^^^ (b >>> 1 ^^^ poly) =
          (a >>> 1 ^^^ b >>> 1) ^^^ (poly ^^^ poly) := by
      ac_rfl
    simp [hCancel]

theorem steps_xor
    (poly : BitVec w)
    (n : Nat)
    (a b : BitVec w) :
    steps poly n (a ^^^ b) =
      steps poly n a ^^^ steps poly n b := by
  induction n generalizing a b with
  | zero => rfl
  | succ n ih => rw [steps, step_xor, ih]; rfl

theorem steps_add
    (poly : BitVec w)
    (n k : Nat)
    (c : BitVec w) :
    steps poly (n + k) c = steps poly k (steps poly n c) := by
  induction n generalizing c with
  | zero => rw [Nat.zero_add]; rfl
  | succ n ih =>
      rw [Nat.add_right_comm]
      exact ih (step poly c)

@[simp] theorem steps_zero_right
    (poly : BitVec w)
    (n : Nat) :
    steps poly n 0 = 0 := by
  have hSelf := steps_xor poly n 0 0
  rw [BitVec.xor_self] at hSelf
  exact hSelf.trans (BitVec.xor_self)

/- An even number is halved. -/
theorem step_double
    (poly : BitVec w)
    {x : Nat}
    (hFits : 2 * x < 2 ^ w) :
    step poly (BitVec.ofNat w (2 * x)) = BitVec.ofNat w x := by
  have hLow : (BitVec.ofNat w (2 * x)).getLsbD 0 = false := by
    simp [BitVec.getLsbD_ofNat]
  have hHalf : x < 2 ^ w := by omega
  unfold step
  rw [hLow]
  apply BitVec.eq_of_toNat_eq
  simp only [Bool.false_eq_true, if_false, BitVec.xor_zero,
    BitVec.toNat_ushiftRight, BitVec.toNat_ofNat,
    Nat.mod_eq_of_lt hFits, Nat.mod_eq_of_lt hHalf,
    Nat.shiftRight_eq_div_pow]
  omega

/- A number with `m` zeros at its end loses them. -/
theorem steps_shift
    (poly : BitVec w)
    (m : Nat)
    {x : Nat}
    (hFits : 2 ^ m * x < 2 ^ w) :
    steps poly m (BitVec.ofNat w (2 ^ m * x)) =
      BitVec.ofNat w x := by
  induction m with
  | zero => simp [steps]
  | succ m ih =>
      have hSplit : 2 ^ (m + 1) * x = 2 * (2 ^ m * x) := by ring
      rw [hSplit] at hFits
      rw [hSplit, steps, step_double poly hFits]
      exact ih (by omega)

/- Below a shifted number, adding is adding without carry. -/
theorem ofNat_add
    {m d : Nat}
    (hDigit : d < 2 ^ m)
    (x : Nat) :
    BitVec.ofNat w (d + 2 ^ m * x) =
      BitVec.ofNat w d ^^^ BitVec.ofNat w (2 ^ m * x) := by
  have hXor : d + 2 ^ m * x = d ^^^ (2 ^ m * x) := by
    have hPos := Nat.two_pow_pos m
    have hDiv : (d ^^^ (2 ^ m * x)) / 2 ^ m = x := by
      rw [Nat.xor_div_two_pow, Nat.div_eq_of_lt hDigit,
        Nat.mul_div_cancel_left x hPos, Nat.zero_xor]
    have hMod : (d ^^^ (2 ^ m * x)) % 2 ^ m = d := by
      rw [Nat.xor_mod_two_pow, Nat.mod_eq_of_lt hDigit,
        Nat.mul_mod_right, Nat.xor_zero]
    have hParts := Nat.mod_add_div (d ^^^ (2 ^ m * x)) (2 ^ m)
    rwa [hDiv, hMod] at hParts
  rw [hXor, BitVec.ofNat_xor]

------------------------------------------------------------
-- Digits
------------------------------------------------------------

/- Add each digit of `m` bits to the register, and divide. -/
def feed (poly : BitVec w) (m : Nat) :
    BitVec w → List Nat → BitVec w
| c, [] => c
| c, d :: ds =>
    feed poly m (steps poly m (c ^^^ BitVec.ofNat w d)) ds

theorem feed_append
    (poly : BitVec w)
    (m : Nat)
    (c : BitVec w)
    (ds es : List Nat) :
    feed poly m c (ds ++ es) =
      feed poly m (feed poly m c ds) es := by
  induction ds generalizing c with
  | nil => rfl
  | cons d ds ih => exact ih _

/- The number of the digits, the lowest one first. -/
theorem ofDigits_lt
    {m : Nat}
    (hPos : 0 < m)
    {ds : List Nat}
    (hDigits : ∀ d ∈ ds, d < 2 ^ m) :
    Nat.ofDigits (2 ^ m) ds < 2 ^ (m * ds.length) := by
  rw [pow_mul]
  exact Nat.ofDigits_lt_base_pow_length
    (Nat.one_lt_two_pow hPos.ne') hDigits

/- One digit more. -/
theorem mul_ofDigits_lt
    {m : Nat}
    (hPos : 0 < m)
    {ds : List Nat}
    (hDigits : ∀ d ∈ ds, d < 2 ^ m)
    (hRoom : m * ds.length + m ≤ w) :
    2 ^ m * Nat.ofDigits (2 ^ m) ds < 2 ^ w := by
  have hLt := ofDigits_lt hPos hDigits
  have hPow := Nat.pow_le_pow_right (by decide : 0 < 2) hRoom
  rw [pow_add, Nat.mul_comm] at hPow
  exact (Nat.mul_lt_mul_of_pos_left hLt
    (Nat.two_pow_pos m)).trans_le hPow

/- Digits that the register can hold may be fed at once. -/
theorem feed_eq_steps
    (poly : BitVec w)
    {m : Nat}
    (hPos : 0 < m)
    {ds : List Nat}
    (hDigits : ∀ d ∈ ds, d < 2 ^ m)
    (hRoom : m * ds.length ≤ w)
    (c : BitVec w) :
    feed poly m c ds =
      steps poly (m * ds.length)
        (c ^^^ BitVec.ofNat w (Nat.ofDigits (2 ^ m) ds)) := by
  induction ds generalizing c with
  | nil => simp [feed, steps, Nat.ofDigits_nil]
  | cons d ds ih =>
      have hTail : ∀ e ∈ ds, e < 2 ^ m := fun e he =>
        hDigits e (List.mem_cons_of_mem d he)
      have hFirst := hDigits d List.mem_cons_self
      rw [List.length_cons, Nat.mul_succ] at hRoom
      have hFits := mul_ofDigits_lt hPos hTail hRoom
      rw [feed, ih hTail (by omega), Nat.ofDigits_cons,
        ofNat_add hFirst, List.length_cons,
        Nat.mul_succ, Nat.add_comm (m * ds.length), steps_add]
      congr 1
      rw [← BitVec.xor_assoc, steps_xor,
        steps_xor poly m (c ^^^ BitVec.ofNat w d),
        steps_xor, steps_shift poly m hFits]

/-
  The division of all digits from tables: each one is looked
  up by its distance from the end.
-/
def sliced (poly : BitVec w) (m : Nat) : List Nat → BitVec w
| [] => 0#w
| d :: ds =>
    steps poly (m * (ds.length + 1)) (BitVec.ofNat w d) ^^^
      sliced poly m ds

theorem steps_ofDigits
    (poly : BitVec w)
    {m : Nat}
    (hPos : 0 < m)
    {ds : List Nat}
    (hDigits : ∀ d ∈ ds, d < 2 ^ m)
    (hRoom : m * ds.length ≤ w) :
    steps poly (m * ds.length)
        (BitVec.ofNat w (Nat.ofDigits (2 ^ m) ds)) =
      sliced poly m ds := by
  induction ds with
  | nil => simp [sliced, steps, Nat.ofDigits_nil]
  | cons d ds ih =>
      have hTail : ∀ e ∈ ds, e < 2 ^ m := fun e he =>
        hDigits e (List.mem_cons_of_mem d he)
      have hFirst := hDigits d List.mem_cons_self
      rw [List.length_cons, Nat.mul_succ] at hRoom
      have hFits := mul_ofDigits_lt hPos hTail hRoom
      rw [sliced, Nat.ofDigits_cons,
        ofNat_add hFirst, steps_xor, List.length_cons]
      congr 1
      rw [Nat.mul_succ, Nat.add_comm (m * ds.length), steps_add,
        steps_shift poly m hFits, ih hTail (by omega)]

------------------------------------------------------------
-- Bits
------------------------------------------------------------

/- The bits of a digit, the lowest one first. -/
def bitsOf : Nat → Nat → List Nat
| 0, _ => []
| m + 1, d => d % 2 :: bitsOf m (d / 2)

@[simp] theorem length_bitsOf
    (m d : Nat) :
    (bitsOf m d).length = m := by
  induction m generalizing d with
  | zero => rfl
  | succ m ih => simp [bitsOf, ih]

theorem bitsOf_lt
    {m d b : Nat}
    (hMem : b ∈ bitsOf m d) :
    b < 2 := by
  induction m generalizing d with
  | zero => cases hMem
  | succ m ih =>
      rcases List.mem_cons.mp hMem with rfl | hMem
      · exact Nat.mod_lt d (by decide)
      · exact ih hMem

theorem ofDigits_bitsOf
    {m d : Nat}
    (hDigit : d < 2 ^ m) :
    Nat.ofDigits 2 (bitsOf m d) = d := by
  induction m generalizing d with
  | zero =>
      have hZero : d = 0 := by simpa using hDigit
      rw [hZero]
      rfl
  | succ m ih =>
      have hHalf : d / 2 < 2 ^ m := by
        rw [pow_succ] at hDigit
        omega
      rw [bitsOf, Nat.ofDigits_cons, ih hHalf]
      exact Nat.mod_add_div d 2

/- Digit by digit is bit by bit. -/
theorem feed_bits
    (poly : BitVec w)
    {m : Nat}
    (hRoom : m ≤ w)
    {ds : List Nat}
    (hDigits : ∀ d ∈ ds, d < 2 ^ m)
    (c : BitVec w) :
    feed poly m c ds = feed poly 1 c (ds.flatMap (bitsOf m)) := by
  induction ds generalizing c with
  | nil => rfl
  | cons d ds ih =>
      have hTail : ∀ e ∈ ds, e < 2 ^ m := fun e he =>
        hDigits e (List.mem_cons_of_mem d he)
      have hBits := feed_eq_steps poly (by decide : 0 < 1)
        (fun b hb => bitsOf_lt hb : ∀ b ∈ bitsOf m d, b < 2 ^ 1)
        (by simpa using hRoom) c
      rw [Nat.one_mul, length_bitsOf, Nat.pow_one,
        ofDigits_bitsOf (hDigits d List.mem_cons_self)] at hBits
      rw [List.flatMap_cons, feed_append, hBits, ← ih hTail, feed]

------------------------------------------------------------
-- Errors
------------------------------------------------------------

section Errors

variable {poly : BitVec w}

/- The lowest coefficient makes the division reversible. -/
theorem eq_zero_of_step
    (hTop : poly.msb = true)
    {c : BitVec w}
    (hStep : step poly c = 0#w) :
    c = 0#w := by
  unfold step at hStep
  cases hLow : c.getLsbD 0 with
  | true =>
      rw [hLow, if_pos rfl] at hStep
      have hEq : c >>> 1 = poly := BitVec.xor_eq_zero_iff.mp hStep
      rw [← hEq] at hTop
      simp [BitVec.msb_ushiftRight] at hTop
  | false =>
      rw [hLow, if_neg (by decide), BitVec.xor_zero] at hStep
      have hHalf := congrArg BitVec.toNat hStep
      have hBit : c.toNat % 2 = 0 := by
        rw [BitVec.getLsbD, Nat.testBit_zero] at hLow
        simpa using hLow
      rw [BitVec.toNat_ushiftRight, Nat.shiftRight_eq_div_pow,
        Nat.pow_one, BitVec.toNat_ofNat, Nat.zero_mod] at hHalf
      apply BitVec.eq_of_toNat_eq
      rw [BitVec.toNat_ofNat, Nat.zero_mod]
      omega

theorem steps_injective
    (hTop : poly.msb = true)
    (n : Nat) :
    Function.Injective (steps poly n) := by
  have hZero : ∀ c, steps poly n c = 0#w → c = 0#w := by
    induction n with
    | zero => exact fun c hc => hc
    | succ n ih =>
        exact fun c hc => eq_zero_of_step hTop (ih _ hc)
  intro a b hEq
  have hDiff := steps_xor poly n a b
  rw [hEq, BitVec.xor_self] at hDiff
  exact BitVec.xor_eq_zero_iff.mp (hZero _ hDiff)

theorem feed_injective
    (hTop : poly.msb = true)
    (m : Nat)
    (ds : List Nat) :
    Function.Injective (fun c => feed poly m c ds) := by
  induction ds with
  | nil => exact fun a b hEq => hEq
  | cons d ds ih =>
      intro a b hEq
      have hSame := steps_injective hTop m (ih hEq)
      exact (BitVec.xor_left_inj _).mp hSame

/-
  Two messages that differ, but only within as many bits as
  the register has, leave different registers.
-/
theorem feed_burst_ne
    (hTop : poly.msb = true)
    {m : Nat}
    (hPos : 0 < m)
    {front mid mid' back : List Nat}
    (hLen : mid.length = mid'.length)
    (hRoom : m * mid.length ≤ w)
    (hDigits : ∀ d ∈ mid, d < 2 ^ m)
    (hDigits' : ∀ d ∈ mid', d < 2 ^ m)
    (hNe : mid ≠ mid')
    (c : BitVec w) :
    feed poly m c (front ++ mid ++ back) ≠
      feed poly m c (front ++ mid' ++ back) := by
  rw [feed_append, feed_append, feed_append, feed_append]
  intro hEq
  have hMid := feed_injective hTop m back hEq
  rw [feed_eq_steps poly hPos hDigits hRoom,
    feed_eq_steps poly hPos hDigits' (hLen ▸ hRoom),
    ← hLen] at hMid
  have hNumbers := (BitVec.xor_right_inj _).mp
    (steps_injective hTop _ hMid)
  have hFits :
      ∀ ds : List Nat, ds.length = mid.length →
        (∀ d ∈ ds, d < 2 ^ m) → Nat.ofDigits (2 ^ m) ds < 2 ^ w := by
    intro ds hds hAll
    exact (ofDigits_lt hPos hAll).trans_le
      (Nat.pow_le_pow_right (by decide) (hds ▸ hRoom))
  have hSame := congrArg BitVec.toNat hNumbers
  rw [BitVec.toNat_ofNat, BitVec.toNat_ofNat,
    Nat.mod_eq_of_lt (hFits mid rfl hDigits),
    Nat.mod_eq_of_lt (hFits mid' hLen.symm hDigits')] at hSame
  exact hNe (Nat.ofDigits_inj_of_len_eq
    (Nat.one_lt_two_pow hPos.ne') hLen hDigits hDigits' hSame)

end Errors

end Crc
