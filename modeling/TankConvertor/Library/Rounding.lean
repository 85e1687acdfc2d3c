import TankConvertor.Library.Ieee
import Mathlib.Data.Int.Log

/-
  Rounding of results to the nearest number of a binary
  format, ties to even.

  A program's arithmetic on the data of a format is the
  exact arithmetic of `ExtRat`, each result rounded.  How
  results are rounded is a parameter: `Rounding.nearest` is
  what the machine does, `Rounding.exact` leaves every
  result as it is.

  Key definitions include:
    * `roundEven`
    * `BinaryFormat.nearest` and `BinaryFormat.round`
    * `Rounding`, `Rounding.nearest` and `Rounding.exact`

  Key theorems include:
    * `roundEven_mono` and `le_roundEven_iff`
    * `BinaryFormat.nearest_mono`
    * `BinaryFormat.nearest_of_holds`
    * `BinaryFormat.nearest_lt_iff`
    * `BinaryFormat.inverse_of_difference`
    * `BinaryFormat.not_round_lt`
    * `BinaryFormat.holds_ofBits64`
-/

------------------------------------------------------------
-- Rounding To Integers
------------------------------------------------------------

/- The nearest integer, the even one of two. -/
def roundEven (q : ℚ) : Int :=
  let r := q - ⌊q⌋
  if r < 1 / 2 then ⌊q⌋
  else if 1 / 2 < r then ⌊q⌋ + 1
  else if ⌊q⌋ % 2 = 0 then ⌊q⌋
  else ⌊q⌋ + 1

@[simp] theorem roundEven_intCast
    (n : Int) :
    roundEven n = n := by
  simp [roundEven]

/- It is one of the two integers next to the number. -/
theorem roundEven_near
    (q : ℚ) :
    ⌊q⌋ ≤ roundEven q ∧ roundEven q ≤ ⌊q⌋ + 1 := by
  simp only [roundEven]
  split_ifs <;> omega

theorem roundEven_mono
    {x y : ℚ}
    (hLe : x ≤ y) :
    roundEven x ≤ roundEven y := by
  have hFloor := Int.floor_mono hLe
  rcases hFloor.lt_or_eq with hLt | hEq
  · have hx := (roundEven_near x).2
    have hy := (roundEven_near y).1
    omega
  · simp only [roundEven, hEq]
    split_ifs <;> first | omega | (exfalso; linarith)

/- Half a unit below an even number, the number is reached. -/
theorem le_roundEven_iff
    {q : ℚ}
    {n : Int}
    (hEven : n % 2 = 0) :
    n ≤ roundEven q ↔ (n : ℚ) - 1 / 2 ≤ q := by
  have hLow := Int.floor_le q
  have hHigh := Int.lt_floor_add_one q
  constructor
  · intro hReach
    by_contra hBelow
    have hFloor : ⌊q⌋ < n := by
      have : (⌊q⌋ : ℚ) < n := by linarith
      exact_mod_cast this
    have hEq : ⌊q⌋ = n - 1 := by
      have := (roundEven_near q).2
      omega
    have hCast : (⌊q⌋ : ℚ) = n - 1 := by
      rw [hEq]
      push_cast
      ring
    have hDown : roundEven q = ⌊q⌋ :=
      if_pos (by linarith)
    omega
  · intro hNear
    rcases le_or_gt n ⌊q⌋ with hLe | hGt
    · exact hLe.trans (roundEven_near q).1
    · have hEq : ⌊q⌋ = n - 1 := by
        have hCast : (n : ℚ) - 1 - 1 < ⌊q⌋ := by linarith
        have : n - 1 - 1 < ⌊q⌋ := by exact_mod_cast hCast
        omega
      have hOdd : ¬ ⌊q⌋ % 2 = 0 := by omega
      have hCast : (⌊q⌋ : ℚ) = n - 1 := by
        rw [hEq]
        push_cast
        ring
      have hHalf : ¬ q - ⌊q⌋ < 1 / 2 := by linarith
      simp only [roundEven, hHalf, if_false, hOdd]
      split_ifs <;> omega

theorem roundEven_neg
    (q : ℚ) :
    roundEven (-q) = -roundEven q := by
  have hLow := Int.floor_le q
  have hHigh := Int.lt_floor_add_one q
  by_cases hWhole : (⌊q⌋ : ℚ) = q
  · rw [← hWhole, ← Int.cast_neg, roundEven_intCast,
      roundEven_intCast]
  · have hLt : (⌊q⌋ : ℚ) < q := lt_of_le_of_ne hLow hWhole
    have hFloor : ⌊-q⌋ = -⌊q⌋ - 1 := by
      rw [Int.floor_eq_iff]
      constructor <;> push_cast <;> linarith
    simp only [roundEven, hFloor]
    push_cast
    split_ifs <;> first | omega | (exfalso; linarith)

------------------------------------------------------------
-- Binary Formats
------------------------------------------------------------

/-
  The digits of a significand, the exponent of the least
  positive number, and that of the first power of two beyond
  the largest number.
-/
structure BinaryFormat where
  digits : Nat
  least : Int
  top : Int
  digits_pos : 0 < digits

def binary64 : BinaryFormat := ⟨53, -1074, 1024, by decide⟩
def binary32 : BinaryFormat := ⟨24, -149, 128, by decide⟩

namespace BinaryFormat

variable {F : BinaryFormat}

/- The exponent of the last digit of a number. -/
def unit (F : BinaryFormat) (q : ℚ) : Int :=
  max (Int.log 2 |q| - (F.digits - 1)) F.least

/- The nearest number, whatever its size. -/
def nearest (F : BinaryFormat) (q : ℚ) : ℚ :=
  roundEven (q / 2 ^ F.unit q) * 2 ^ F.unit q

/- A datum rounded; what is too large becomes an infinity. -/
def round (F : BinaryFormat) : ExtRat → ExtRat
| .fin q =>
    if q = 0 then .fin 0
    else if 2 ^ F.top ≤ |F.nearest q| then
      .inf (decide (q < 0))
    else
      .ofRat (decide (q < 0)) (F.nearest q)
| x => x

/- A number with few enough digits. -/
def Holds (F : BinaryFormat) (q : ℚ) : Prop :=
  ∃ m e : Int,
    |m| < 2 ^ F.digits ∧ F.least ≤ e ∧ q = m * 2 ^ e

theorem unit_neg
    (q : ℚ) :
    F.unit (-q) = F.unit q := by
  simp [unit]

theorem nearest_neg
    (q : ℚ) :
    F.nearest (-q) = -F.nearest q := by
  simp [nearest, unit_neg, neg_div, roundEven_neg]

@[simp] theorem nearest_zero : F.nearest 0 = 0 := by
  simp [nearest, roundEven]

/- What the format holds is kept. -/
theorem nearest_of_holds
    {q : ℚ}
    (hHolds : F.Holds q) :
    F.nearest q = q := by
  obtain ⟨m, e, hFew, hLeast, hq⟩ := hHolds
  rcases eq_or_ne q 0 with hZero | hNe
  · rw [hZero, nearest_zero]
  have hUnit : F.unit q ≤ e := by
    refine max_le ?_ hLeast
    have hBelow : |q| < 2 ^ (F.digits + e : Int) := by
      rw [hq, abs_mul, abs_of_pos (by positivity : (0 : ℚ) < 2 ^ e),
        zpow_add₀ (by norm_num), zpow_natCast]
      exact mul_lt_mul_of_pos_right (by exact_mod_cast hFew)
        (by positivity)
    have hLog :=
      (Int.lt_zpow_iff_log_lt (by norm_num : 1 < 2)
        (abs_pos.mpr hNe)).mp (by exact_mod_cast hBelow)
    omega
  have hWhole :
      q / 2 ^ F.unit q =
        ((m * 2 ^ (e - F.unit q).toNat : Int) : ℚ) := by
    rw [div_eq_iff (by positivity), hq]
    push_cast
    rw [mul_assoc, ← zpow_natCast,
      ← zpow_add₀ (by norm_num : (2 : ℚ) ≠ 0)]
    congr 2
    rw [← hq]
    omega
  rw [nearest, hWhole, roundEven_intCast, ← hWhole,
    div_mul_cancel₀ _ (by positivity)]

theorem nearest_nonneg
    {q : ℚ}
    (hNonneg : 0 ≤ q) :
    0 ≤ F.nearest q := by
  have hRound : (0 : Int) ≤ roundEven (q / 2 ^ F.unit q) := by
    have hMono :=
      roundEven_mono (div_nonneg hNonneg
        (by positivity : (0 : ℚ) ≤ 2 ^ F.unit q))
    simpa [roundEven] using hMono
  exact mul_nonneg (by exact_mod_cast hRound) (by positivity)

/- A number is rounded to at most the power above it. -/
theorem nearest_le_zpow
    {q : ℚ}
    (hPos : 0 < q) :
    F.nearest q ≤ 2 ^ (F.unit q + F.digits) := by
  have hBelow : q < 2 ^ (F.unit q + F.digits) := by
    rw [show (2 : ℚ) = ((2 : Nat) : ℚ) by norm_num,
      Int.lt_zpow_iff_log_lt (by norm_num) hPos]
    have hUnit :
        Int.log 2 |q| - (F.digits - 1) ≤ F.unit q :=
      le_max_left _ _
    rw [abs_of_pos hPos] at hUnit
    omega
  have hMono : roundEven (q / 2 ^ F.unit q) ≤ 2 ^ F.digits := by
    have hLe : q / 2 ^ F.unit q ≤ ((2 ^ F.digits : Int) : ℚ) := by
      rw [div_le_iff₀ (by positivity)]
      push_cast
      rw [← zpow_natCast, ← zpow_add₀ (by norm_num), add_comm]
      exact hBelow.le
    calc
      roundEven (q / 2 ^ F.unit q)
        ≤ roundEven ((2 ^ F.digits : Int) : ℚ) :=
          roundEven_mono hLe
      _ = 2 ^ F.digits := roundEven_intCast _
  rw [nearest, add_comm (F.unit q), zpow_add₀ (by norm_num),
    zpow_natCast]
  exact mul_le_mul_of_nonneg_right (by exact_mod_cast hMono)
    (by positivity)

/- And to at least the power below it, if that has a place. -/
theorem zpow_le_nearest
    {q : ℚ}
    (hPos : 0 < q)
    (hUnit : F.unit q = Int.log 2 q - (F.digits - 1)) :
    2 ^ Int.log 2 q ≤ F.nearest q := by
  have hAbove : (2 : ℚ) ^ Int.log 2 q ≤ q := by
    exact_mod_cast Int.zpow_log_le_self (by norm_num) hPos
  have hPower :
      (2 : ℚ) ^ Int.log 2 q =
        ((2 ^ (F.digits - 1) : Int) : ℚ) * 2 ^ F.unit q := by
    have hDigits := F.digits_pos
    push_cast
    rw [← zpow_natCast, ← zpow_add₀ (by norm_num), hUnit]
    congr 1
    omega
  have hMono :
      (2 : Int) ^ (F.digits - 1) ≤
        roundEven (q / 2 ^ F.unit q) := by
    calc
      (2 : Int) ^ (F.digits - 1)
        = roundEven ((2 ^ (F.digits - 1) : Int) : ℚ) :=
          (roundEven_intCast _).symm
      _ ≤ roundEven (q / 2 ^ F.unit q) := by
          apply roundEven_mono
          rw [le_div_iff₀ (by positivity), ← hPower]
          exact hAbove
  rw [nearest, hPower]
  exact mul_le_mul_of_nonneg_right (by exact_mod_cast hMono)
    (by positivity)

theorem nearest_mono_of_pos
    {x y : ℚ}
    (hPos : 0 < x)
    (hLe : x ≤ y) :
    F.nearest x ≤ F.nearest y := by
  have hy : 0 < y := hPos.trans_le hLe
  have hLog : Int.log 2 x ≤ Int.log 2 y :=
    Int.log_mono_right hPos hLe
  have hUnitx : F.unit x = max (Int.log 2 x - (F.digits - 1)) F.least := by
    rw [unit, abs_of_pos hPos]
  have hUnity : F.unit y = max (Int.log 2 y - (F.digits - 1)) F.least := by
    rw [unit, abs_of_pos hy]
  rcases lt_or_ge (F.unit x) (F.unit y) with hLt | hGe
  · -- a power of two lies between the two numbers
    have hTop : F.unit y = Int.log 2 y - (F.digits - 1) := by
      omega
    calc
      F.nearest x ≤ 2 ^ (F.unit x + F.digits) :=
        nearest_le_zpow hPos
      _ ≤ 2 ^ Int.log 2 y :=
        zpow_le_zpow_right₀ (by norm_num) (by omega)
      _ ≤ F.nearest y := zpow_le_nearest hy hTop
  · have hEq : F.unit x = F.unit y := by omega
    rw [nearest, nearest, hEq]
    refine mul_le_mul_of_nonneg_right ?_ (by positivity)
    exact_mod_cast
      roundEven_mono (div_le_div_of_nonneg_right hLe
        (by positivity))

theorem nearest_mono
    {x y : ℚ}
    (hLe : x ≤ y) :
    F.nearest x ≤ F.nearest y := by
  rcases lt_or_ge 0 x with hPos | hNonpos
  · exact nearest_mono_of_pos hPos hLe
  have hx : F.nearest x ≤ 0 := by
    have hNeg := nearest_nonneg (F := F) (neg_nonneg.mpr hNonpos)
    rw [nearest_neg] at hNeg
    linarith
  rcases le_or_gt 0 y with hNonneg | hNeg
  · exact hx.trans (nearest_nonneg hNonneg)
  · have hFlip :=
      nearest_mono_of_pos (F := F) (neg_pos.mpr hNeg)
        (neg_le_neg hLe)
    rw [nearest_neg, nearest_neg] at hFlip
    linarith

/-
  Half the distance from the integer after `n` to the number
  before that integer.
-/
def halfStep (F : BinaryFormat) (n : Nat) : ℚ :=
  if n = 0 then 1 / 2 ^ (F.digits + 1)
  else 2 ^ Nat.log 2 n / 2 ^ F.digits

/- Numbers of one unit stay below an even multiple of it. -/
theorem nearest_lt_iff_of_unit
    {q : ℚ}
    {k : Int}
    (hEven : k % 2 = 0) :
    F.nearest q < k * 2 ^ F.unit q ↔
      q < k * 2 ^ F.unit q - 2 ^ F.unit q / 2 := by
  have hPos : (0 : ℚ) < 2 ^ F.unit q := by positivity
  have hScale :
      (k : ℚ) - 1 / 2 ≤ q / 2 ^ F.unit q ↔
        k * 2 ^ F.unit q - 2 ^ F.unit q / 2 ≤ q := by
    rw [le_div_iff₀ hPos]
    constructor <;> intro h <;> linarith
  rw [nearest, mul_lt_mul_iff_left₀ hPos, Int.cast_lt,
    ← not_le, le_roundEven_iff hEven, hScale, not_le]

/- Below one. -/
theorem nearest_lt_one_iff
    {q : ℚ}
    (hLeast : F.least ≤ -(F.digits : Int))
    (hLow : 0 ≤ q)
    (hHigh : q < 1) :
    F.nearest q < 1 ↔ q < 1 - 1 / 2 ^ (F.digits + 1) := by
  have hDigits := F.digits_pos
  rcases lt_or_ge q (1 / 2) with hTiny | hHalf
  · have hKept : F.nearest (1 / 2) = 1 / 2 := by
      refine nearest_of_holds ⟨1, -1, ?_, by omega, by norm_num⟩
      have := Nat.one_lt_two_pow F.digits_pos.ne'
      exact_mod_cast this
    have hMono := nearest_mono (F := F) hTiny.le
    rw [hKept] at hMono
    have hStep : (1 : ℚ) / 2 ^ (F.digits + 1) ≤ 1 / 2 := by
      apply one_div_le_one_div_of_le (by norm_num)
      exact le_self_pow₀ (by norm_num) (by omega)
    exact ⟨fun _ => by linarith, fun _ => by linarith⟩
  · have hLog : Int.log 2 |q| = -1 := by
      rw [abs_of_nonneg hLow]
      apply le_antisymm
      · have hBelow :=
          (Int.lt_zpow_iff_log_lt (x := 0) (by norm_num : 1 < 2)
            (by linarith : 0 < q)).mp (by simpa using hHigh)
        omega
      · refine (Int.zpow_le_iff_le_log (by norm_num)
          (by linarith)).mp ?_
        norm_num
        linarith
    have hUnit : F.unit q = -(F.digits : Int) := by
      rw [unit, hLog]
      omega
    have hOne :
        ((2 ^ F.digits : Int) : ℚ) * 2 ^ F.unit q = 1 := by
      rw [hUnit]
      push_cast
      rw [zpow_neg, zpow_natCast,
        mul_inv_cancel₀ (by positivity)]
    have hEven : (2 ^ F.digits : Int) % 2 = 0 :=
      Int.emod_eq_zero_of_dvd (dvd_pow_self 2 hDigits.ne')
    have hIff := nearest_lt_iff_of_unit (F := F) (q := q) hEven
    rw [hOne, hUnit, zpow_neg, zpow_natCast] at hIff
    have hSplit :
        (1 : ℚ) / 2 ^ (F.digits + 1) =
          (2 ^ F.digits)⁻¹ / 2 := by
      rw [pow_succ]
      field_simp
    rw [hIff, hSplit]

/- The unit between a positive integer and the next. -/
theorem unit_between
    {q : ℚ}
    {n : Nat}
    (hPos : 0 < n)
    (hSmall : n < 2 ^ (F.digits - 1))
    (hLeast : F.least ≤ -(F.digits : Int))
    (hLow : (n : ℚ) ≤ q)
    (hHigh : q < n + 1) :
    Nat.log 2 n < F.digits - 1 ∧
      F.unit q = (Nat.log 2 n : Int) - (F.digits - 1) := by
  have hNonneg : (0 : ℚ) ≤ q := (Nat.cast_nonneg n).trans hLow
  have hFloor : ⌊q⌋₊ = n :=
    (Nat.floor_eq_iff hNonneg).mpr ⟨hLow, hHigh⟩
  have hOneLe : (1 : ℚ) ≤ q := by
    have : (1 : ℚ) ≤ n := by exact_mod_cast hPos
    linarith
  have hLog : Int.log 2 |q| = Nat.log 2 n := by
    rw [abs_of_nonneg hNonneg, Int.log_of_one_le_right 2 hOneLe,
      hFloor]
  have hDigits : Nat.log 2 n < F.digits - 1 :=
    Nat.log_lt_of_lt_pow hPos.ne' hSmall
  refine ⟨hDigits, ?_⟩
  rw [unit, hLog]
  omega

/- Above one. -/
theorem nearest_lt_succ_iff
    {q : ℚ}
    {n : Nat}
    (hPos : 0 < n)
    (hSmall : n < 2 ^ (F.digits - 1))
    (hLeast : F.least ≤ -(F.digits : Int))
    (hLow : (n : ℚ) ≤ q)
    (hHigh : q < n + 1) :
    F.nearest q < n + 1 ↔
      q < n + 1 - 2 ^ Nat.log 2 n / 2 ^ F.digits := by
  obtain ⟨hLog, hUnit⟩ :=
    unit_between hPos hSmall hLeast hLow hHigh
  have hNext :
      (((n + 1) * 2 ^ (F.digits - 1 - Nat.log 2 n) : Int) : ℚ) *
          2 ^ F.unit q =
        n + 1 := by
    have hUnitEq :
        F.unit q =
          -((F.digits - 1 - Nat.log 2 n : Nat) : Int) := by
      omega
    rw [hUnitEq, zpow_neg, zpow_natCast]
    push_cast
    rw [mul_assoc, mul_inv_cancel₀ (by positivity), mul_one]
  have hEven :
      ((n + 1) * 2 ^ (F.digits - 1 - Nat.log 2 n) : Int) % 2 =
        0 :=
    Int.emod_eq_zero_of_dvd
      (Dvd.dvd.mul_left (dvd_pow_self 2 (by omega)) _)
  have hIff := nearest_lt_iff_of_unit (F := F) (q := q) hEven
  rw [hNext] at hIff
  have hHalf :
      (2 : ℚ) ^ F.unit q / 2 =
        2 ^ Nat.log 2 n / 2 ^ F.digits := by
    have hSucc : F.digits = F.digits - 1 + 1 := by omega
    have hCast :
        (F.digits : Int) - 1 = ((F.digits - 1 : Nat) : Int) := by
      omega
    rw [hUnit, zpow_sub₀ (by norm_num), zpow_natCast, div_div,
      hCast, zpow_natCast, ← pow_succ, ← hSucc]
  rw [hIff, hHalf]

/-
  A number between two integers is not rounded up to the
  second, unless it is within half a step of it.
-/
theorem nearest_lt_iff
    {q : ℚ}
    {n : Nat}
    (hSmall : n < 2 ^ (F.digits - 1))
    (hLeast : F.least ≤ -(F.digits : Int))
    (hLow : (n : ℚ) ≤ q)
    (hHigh : q < n + 1) :
    F.nearest q < n + 1 ↔ q < n + 1 - F.halfStep n := by
  rcases Nat.eq_zero_or_pos n with hZero | hPos
  · subst hZero
    simpa [halfStep] using
      nearest_lt_one_iff hLeast (by simpa using hLow)
        (by simpa using hHigh)
  · rw [halfStep, if_neg hPos.ne']
    exact nearest_lt_succ_iff hPos hSmall hLeast hLow hHigh

/- What the numbers of a double's range are rounded to. -/
theorem round_of_holds
    {q : ℚ}
    (hHolds : F.Holds q)
    (hRange : |q| < 2 ^ F.top) :
    F.round (.fin q) = .fin q := by
  by_cases hZero : q = 0
  · simp [round, hZero]
  · simp [round, ExtRat.ofRat, nearest_of_holds hHolds, hZero,
      not_le.mpr hRange]

/- A finite result, and what it stands for. -/
theorem round_finite
    {x : ExtRat}
    (hFinite : x.IsFinite)
    (hRange : |F.nearest x.toRat| < 2 ^ F.top) :
    (F.round x).IsFinite ∧
      (F.round x).toRat = F.nearest x.toRat := by
  rcases hFinite.cases with h | h
  · rw [h]
    exact ⟨trivial, by simp [round, ExtRat.toRat]⟩
  · rw [h, ExtRat.toRat_fin, round]
    by_cases hZero : x.toRat = 0
    · simp [hZero]
    · simp [hZero, not_le.mpr hRange]

/- A datum that the format holds is kept. -/
theorem round_held
    {x : ExtRat}
    (hFinite : x.IsFinite)
    (hHolds : F.Holds x.toRat)
    (hRange : |x.toRat| < 2 ^ F.top) :
    (F.round x).IsFinite ∧ (F.round x).toRat = x.toRat := by
  have hKept := nearest_of_holds hHolds
  have hRound :=
    round_finite hFinite (hKept.symm ▸ hRange)
  exact ⟨hRound.1, hRound.2.trans hKept⟩

/- What lies beyond the range becomes an infinity. -/
theorem round_of_large
    {x : ExtRat}
    (hFinite : x.IsFinite)
    (hHolds : F.Holds x.toRat)
    (hLarge : 2 ^ F.top ≤ x.toRat) :
    F.round x = .inf false := by
  have hPos : 0 < x.toRat :=
    lt_of_lt_of_le (by positivity) hLarge
  rcases hFinite.cases with h | h
  · rw [h] at hPos
    exact absurd hPos (lt_irrefl _)
  · rw [h, round, if_neg hPos.ne', nearest_of_holds hHolds,
      abs_of_pos hPos, if_pos hLarge]
    simp [hPos.le]

------------------------------------------------------------
-- Differences And Inverses
------------------------------------------------------------

theorem holds_zpow
    {k : Int}
    (hLeast : F.least ≤ k) :
    F.Holds (2 ^ k) := by
  refine ⟨1, k, ?_, hLeast, by simp⟩
  rw [abs_one]
  exact one_lt_pow₀ (by norm_num) F.digits_pos.ne'

/- Every number held is a multiple of the least one. -/
theorem Holds.multiple
    {q : ℚ}
    (hHolds : F.Holds q) :
    ∃ c : Int, q = c * 2 ^ F.least := by
  obtain ⟨m, e, -, hLeast, rfl⟩ := hHolds
  refine ⟨m * 2 ^ (e - F.least).toNat, ?_⟩
  push_cast
  rw [mul_assoc, ← zpow_natCast, ← zpow_add₀ (by norm_num),
    Int.toNat_of_nonneg (by omega)]
  congr 2
  omega

/- A product of integers and a power of two that is one. -/
theorem eq_two_pow_of_mul_eq_one
    {m c e : Int}
    (hPos : 0 < m)
    (hOne : (m * c : ℚ) * 2 ^ e = 1) :
    ∃ j : Nat, m = 2 ^ j := by
  have hDvd : m ∣ 2 ^ (-e).toNat := by
    rcases le_or_gt 0 e with hUp | hDown
    · have hInt : m * (c * 2 ^ e.toNat) = 1 := by
        rw [← Int.toNat_of_nonneg hUp, zpow_natCast] at hOne
        rw [← mul_assoc]
        exact_mod_cast hOne
      exact (Dvd.intro _ hInt).trans (one_dvd _)
    · have hPow : (2 : ℚ) ^ (-e).toNat * 2 ^ e = 1 := by
        rw [← zpow_natCast, ← zpow_add₀ (by norm_num),
          Int.toNat_of_nonneg (by omega)]
        simp
      have hInt : m * c = 2 ^ (-e).toNat := by
        have hSame :=
          mul_right_cancel₀ (by positivity : (2 : ℚ) ^ e ≠ 0)
            (hOne.trans hPow.symm)
        exact_mod_cast hSame
      exact Dvd.intro _ hInt
  obtain ⟨n, rfl⟩ := Int.eq_ofNat_of_zero_le hPos.le
  obtain ⟨j, -, hj⟩ :=
    (Nat.dvd_prime_pow Nat.prime_two).mp (by exact_mod_cast hDvd)
  exact ⟨j, by exact_mod_cast hj⟩

/-
  If one over a number is the difference of two others, it
  is a power of two.
-/
theorem inverse_of_difference
    {r x y : ℚ}
    (hPos : 0 < r)
    (hr : F.Holds r)
    (hx : F.Holds x)
    (hy : F.Holds y)
    (hDifference : y = x + 1 / r) :
    ∃ k : Int, F.least ≤ k ∧ 1 / r = 2 ^ k := by
  obtain ⟨a, ha⟩ := hx.multiple
  obtain ⟨b, hb⟩ := hy.multiple
  obtain ⟨m, e, -, -, hm⟩ := hr
  have hInverse : 1 / r = ((b - a : Int) : ℚ) * 2 ^ F.least := by
    push_cast
    linarith [sub_mul (b : ℚ) a (2 ^ F.least)]
  have hUnit : (0 : ℚ) < 2 ^ e := by positivity
  have hLow : 0 < m := by
    rw [hm] at hPos
    exact_mod_cast pos_of_mul_pos_left hPos hUnit.le
  have hProduct :
      (m * (b - a : Int) : ℚ) * 2 ^ (e + F.least) = 1 := by
    rw [zpow_add₀ (by norm_num)]
    calc
      (m * (b - a : Int) : ℚ) * (2 ^ e * 2 ^ F.least)
        = m * 2 ^ e * ((b - a : Int) * 2 ^ F.least) := by ring
      _ = r * (1 / r) := by rw [← hm, ← hInverse]
      _ = 1 := mul_one_div_cancel hPos.ne'
  obtain ⟨j, hj⟩ := eq_two_pow_of_mul_eq_one hLow hProduct
  have hPower : 1 / r = 2 ^ (-(j + e) : Int) := by
    rw [hm, hj, zpow_neg, zpow_add₀ (by norm_num), zpow_natCast]
    simp
  refine ⟨-(j + e), ?_, hPower⟩
  have hCount : 0 < b - a := by
    have hOver := one_div_pos.mpr hPos
    rw [hInverse] at hOver
    exact_mod_cast pos_of_mul_pos_left hOver (by positivity)
  have hLeast : (2 : ℚ) ^ F.least ≤ 2 ^ (-(j + e) : Int) := by
    rw [← hPower, hInverse]
    have hOne : (1 : ℚ) ≤ ((b - a : Int) : ℚ) := by
      exact_mod_cast hCount
    exact le_mul_of_one_le_left (by positivity) hOne
  exact (zpow_le_zpow_iff_right₀ (by norm_num)).mp hLeast

/- Nothing from a number on is rounded below it. -/
theorem not_round_lt
    {u : ℚ}
    (hHolds : F.Holds u)
    (hRange : |u| < 2 ^ F.top)
    {x : ExtRat}
    (hFinite : x.IsFinite)
    (hFrom : u ≤ x.toRat)
    {y : ExtRat}
    (hy : y.IsFinite)
    (hSame : y.toRat = u) :
    ¬ F.round x < y := by
  have hNear : u ≤ F.nearest x.toRat :=
    (nearest_of_holds hHolds).symm.le.trans (nearest_mono hFrom)
  by_cases hSmall : |F.nearest x.toRat| < 2 ^ F.top
  · have hRound := round_finite hFinite hSmall
    rw [ExtRat.lt_iff_of_finite hRound.1 hy, hRound.2, hSame]
    exact not_lt.mpr hNear
  · -- what is too large is so to the other side
    have hLarge := not_lt.mp hSmall
    have hOver : 0 < F.nearest x.toRat := by
      by_contra hNot
      rw [abs_of_nonpos (not_lt.mp hNot)] at hLarge
      linarith [(abs_lt.mp hRange).1]
    have hPos : 0 < x.toRat := by
      by_contra hNot
      have hBelow := nearest_mono (F := F) (not_lt.mp hNot)
      rw [nearest_zero] at hBelow
      exact absurd hOver (not_lt.mpr hBelow)
    have hInf : F.round x = .inf false := by
      rcases hFinite.cases with h | h
      · rw [h] at hPos
        exact absurd hPos (lt_irrefl _)
      · rw [h, round, if_neg hPos.ne', if_pos hLarge]
        simp [hPos.le]
    rw [hInf]
    exact ExtRat.not_inf_lt hy

------------------------------------------------------------
-- The Numbers Of Doubles
------------------------------------------------------------

theorem scale_eq
    (m e : Int) :
    ExtRat.scale m e = m * 2 ^ e := by
  unfold ExtRat.scale
  split
  · rename_i hNonneg
    obtain ⟨n, rfl⟩ := Int.eq_ofNat_of_zero_le hNonneg
    simp [Rat.mkRat_eq_div]
  · rename_i hNeg
    obtain ⟨n, hn⟩ := Int.eq_ofNat_of_zero_le
      (show 0 ≤ -e by omega)
    obtain rfl : e = -(n : Int) := by omega
    simp [Rat.mkRat_eq_div, zpow_neg, div_eq_mul_inv]

/- A significand of 53 digits and a sign. -/
theorem holds_significand
    {m : Nat}
    {e : Int}
    (negative : Prop)
    [Decidable negative]
    (hFew : m < 2 ^ 53)
    (hLeast : -1074 ≤ e) :
    binary64.Holds
      (if m = 0 then ExtRat.zero (decide negative)
        else if negative then .fin (ExtRat.scale (-m) e)
        else .fin (ExtRat.scale m e)).toRat := by
  have hAbs : |(m : Int)| < 2 ^ binary64.digits := by
    rw [Nat.abs_cast]
    exact_mod_cast hFew
  split_ifs
  · exact ⟨0, 0, by decide, by decide,
      by cases decide negative <;> simp [ExtRat.zero, ExtRat.toRat]⟩
  · exact ⟨-m, e, by rwa [abs_neg], hLeast, scale_eq _ _⟩
  · exact ⟨m, e, hAbs, hLeast, scale_eq _ _⟩

/- The number that a double stands for has its digits. -/
theorem holds_ofBits64
    (bits : Nat) :
    binary64.Holds (ExtRat.ofBits64 bits).toRat := by
  have hFraction : bits % 2 ^ 52 < 2 ^ 52 :=
    Nat.mod_lt _ (by decide)
  simp only [ExtRat.ofBits64]
  split
  · split <;> exact ⟨0, 0, by decide, by decide, by simp [ExtRat.toRat]⟩
  · by_cases hExponent : bits / 2 ^ 52 % 2 ^ 11 = 0
    · simp only [hExponent, if_true]
      exact holds_significand _ (by omega) le_rfl
    · simp only [hExponent, if_false]
      exact holds_significand _ (by omega) (by omega)

theorem abs_significand_lt
    {m : Nat}
    {e : Int}
    (negative : Prop)
    [Decidable negative]
    (hFew : m < 2 ^ 53)
    (hMost : e ≤ 971) :
    |(if m = 0 then ExtRat.zero (decide negative)
        else if negative then .fin (ExtRat.scale (-m) e)
        else .fin (ExtRat.scale m e)).toRat| <
      2 ^ binary64.top := by
  have hUnit : (0 : ℚ) < 2 ^ e := by positivity
  have hScale : |(m : ℚ) * 2 ^ e| < 2 ^ binary64.top := by
    rw [abs_mul, abs_of_pos hUnit, Nat.abs_cast]
    calc
      (m : ℚ) * 2 ^ e < 2 ^ 53 * 2 ^ e :=
        mul_lt_mul_of_pos_right (by exact_mod_cast hFew) hUnit
      _ = 2 ^ (53 + e) := by
        rw [zpow_add₀ (by norm_num)]
        norm_num
      _ ≤ 2 ^ binary64.top :=
        zpow_le_zpow_right₀ (by norm_num) (by
          change 53 + e ≤ 1024
          omega)
  split_ifs
  · have hZero :
        (ExtRat.zero (decide negative)).toRat = 0 := by
      cases decide negative <;> rfl
    rw [hZero, abs_zero]
    positivity
  · rw [ExtRat.toRat_fin, scale_eq]
    push_cast
    rw [neg_mul, abs_neg]
    exact hScale
  · rw [ExtRat.toRat_fin, scale_eq]
    exact_mod_cast hScale

/- And it is in the range of doubles. -/
theorem abs_ofBits64_lt
    (bits : Nat) :
    |(ExtRat.ofBits64 bits).toRat| < 2 ^ binary64.top := by
  have hFraction : bits % 2 ^ 52 < 2 ^ 52 :=
    Nat.mod_lt _ (by decide)
  have hPower : bits / 2 ^ 52 % 2 ^ 11 < 2 ^ 11 :=
    Nat.mod_lt _ (by decide)
  simp only [ExtRat.ofBits64]
  split
  · have hTop : (0 : ℚ) < 2 ^ binary64.top := by positivity
    split <;> simpa [ExtRat.toRat] using hTop
  · by_cases hExponent : bits / 2 ^ 52 % 2 ^ 11 = 0
    · simp only [hExponent, if_true]
      exact abs_significand_lt _ (by omega) (by omega)
    · simp only [hExponent, if_false]
      exact abs_significand_lt _ (by omega) (by omega)

end BinaryFormat

------------------------------------------------------------
-- The Rounding Of An Arithmetic
------------------------------------------------------------

/-
  What results are rounded to, as doubles and as singles.
  What is no number stays so; the whole numbers that a
  double has the digits for are results that need no
  rounding.
-/
class Rounding where
  double : ExtRat → ExtRat
  single : ExtRat → ExtRat
  double_nan : double .nan = .nan
  double_ofInt :
    ∀ n : Int, |n| < 2 ^ 53 →
      double (ExtRat.ofInt n) = ExtRat.ofInt n

namespace Rounding

theorem round_ofInt
    {n : Int}
    (hSmall : |n| < 2 ^ 53) :
    binary64.round (ExtRat.ofInt n) = ExtRat.ofInt n := by
  refine BinaryFormat.round_of_holds
    ⟨n, 0, hSmall, by decide, by simp⟩ ?_
  have hRange : (|n| : ℚ) < 2 ^ 53 := by exact_mod_cast hSmall
  refine hRange.trans ?_
  rw [← zpow_natCast]
  exact zpow_lt_zpow_right₀ (by norm_num) (by decide)

/- To nearest, ties to even: what the machine does. -/
@[reducible] def nearest : Rounding where
  double := binary64.round
  single := binary32.round
  double_nan := rfl
  double_ofInt := fun _ hSmall => round_ofInt hSmall

/- Exact arithmetic: every result is kept. -/
@[reducible] def exact : Rounding where
  double := id
  single := id
  double_nan := rfl
  double_ofInt := fun _ _ => rfl

theorem exact_double
    (x : ExtRat) :
    exact.double x = x := rfl

theorem exact_single
    (x : ExtRat) :
    exact.single x = x := rfl

end Rounding
