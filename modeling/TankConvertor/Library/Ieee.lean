import Mathlib.Tactic
import Mathlib.Data.Rat.Floor

/-
  The numbers of the IEEE binary formats, read exactly.

  A datum is a rational number, an infinity, NaN, or the
  negative zero, which counts as zero except that dividing
  by it gives the infinity of the opposite sign.  Arithmetic
  on finite data is exact: results are rounded to a format in
  a module of their own, and here only where a number is
  packed into the 32 bits of a single.

  Key definitions include:
    * `ExtRat`
    * `ExtRat.ofBits64`
    * `ExtRat.toRat` and `ExtRat.IsFinite`
    * `ExtRat.truncTo`
    * `Binary32.ofInt` and `Binary32.ofBits64`

  Key theorems include:
    * `ExtRat.add_finite`
    * `ExtRat.sub_finite`
    * `ExtRat.div_finite`
    * `ExtRat.lt_iff_of_finite`
    * `ExtRat.isFinite_of_between`
    * `ExtRat.truncTo_range` and `ExtRat.truncTo_of_eq`
    * `ExtRat.trunc_of_nonneg` and `ExtRat.trunc_of_nonpos`
    * `ExtRat.truncTo_eq_trunc`
-/

------------------------------------------------------------
-- Extended Rationals
------------------------------------------------------------

/- The values an IEEE binary format can hold. -/
inductive ExtRat where
| nan
| inf (negative : Bool)
| negZero
| fin (q : ℚ)
deriving DecidableEq, Repr

namespace ExtRat

/- The rational a finite datum stands for. -/
def toRat : ExtRat → ℚ
| .fin q => q
| _ => 0

/- Neither an infinity nor NaN. -/
def IsFinite : ExtRat → Prop
| .fin _ => True
| .negZero => True
| _ => False

instance (x : ExtRat) : Decidable x.IsFinite := by
  cases x <;> unfold IsFinite <;> infer_instance

/- The sign bit. -/
def signBit : ExtRat → Bool
| .nan => false
| .inf s => s
| .negZero => true
| .fin q => decide (q < 0)

/- Zero with a given sign. -/
def zero : Bool → ExtRat
| true => .negZero
| false => .fin 0

/- The datum for a rational whose zero takes the sign `s`. -/
def ofRat (s : Bool) (q : ℚ) : ExtRat :=
  if q = 0 then zero s else .fin q

def ofInt (n : Int) : ExtRat :=
  .fin n

/- Change of sign. -/
def neg : ExtRat → ExtRat
| .nan => .nan
| .inf s => .inf !s
| .negZero => .fin 0
| .fin q => ofRat true (-q)

/- Sum; two infinities of opposite signs have none. -/
def add : ExtRat → ExtRat → ExtRat
| .nan, _ => .nan
| _, .nan => .nan
| .inf s, .inf t => if s = t then .inf s else .nan
| .inf s, _ => .inf s
| _, .inf t => .inf t
| .negZero, .negZero => .negZero
| x, y => .fin (x.toRat + y.toRat)

/- Product; zero times an infinity has none. -/
def mul (x y : ExtRat) : ExtRat :=
  let s := xor x.signBit y.signBit
  match x, y with
  | .nan, _ => .nan
  | _, .nan => .nan
  | .inf _, .inf _ => .inf s
  | .inf _, y => if y.toRat = 0 then .nan else .inf s
  | x, .inf _ => if x.toRat = 0 then .nan else .inf s
  | x, y => ofRat s (x.toRat * y.toRat)

/-
  Quotient; a zero divisor gives an infinity with the
  product of the two signs, zero over zero NaN.
-/
def div (x y : ExtRat) : ExtRat :=
  let s := xor x.signBit y.signBit
  match x, y with
  | .nan, _ => .nan
  | _, .nan => .nan
  | .inf _, .inf _ => .nan
  | .inf _, _ => .inf s
  | _, .inf _ => zero s
  | x, y =>
      if y.toRat = 0 then
        if x.toRat = 0 then .nan else .inf s
      else
        ofRat s (x.toRat / y.toRat)

/- Strict order; false whenever NaN is compared. -/
def lt : ExtRat → ExtRat → Prop
| .nan, _ => False
| _, .nan => False
| .inf s, .inf t => s = true ∧ t = false
| .inf s, _ => s = true
| _, .inf t => t = false
| x, y => x.toRat < y.toRat

instance : Neg ExtRat := ⟨neg⟩
instance : Add ExtRat := ⟨add⟩
instance : Sub ExtRat := ⟨fun x y => add x (neg y)⟩
instance : Mul ExtRat := ⟨mul⟩
instance : Div ExtRat := ⟨div⟩
instance : LT ExtRat := ⟨lt⟩

instance (x y : ExtRat) : Decidable (x < y) := by
  change Decidable (lt x y)
  cases x <;> cases y <;> unfold lt <;> infer_instance

------------------------------------------------------------
-- Exact Arithmetic On Finite Data
------------------------------------------------------------

@[simp] theorem toRat_fin
    (q : ℚ) :
    (ExtRat.fin q).toRat = q := rfl

@[simp] theorem isFinite_fin
    (q : ℚ) :
    (ExtRat.fin q).IsFinite := trivial

@[simp] theorem isFinite_ofInt
    (n : Int) :
    (ofInt n).IsFinite := trivial

@[simp] theorem toRat_ofInt
    (n : Int) :
    (ofInt n).toRat = n := rfl

@[simp] theorem isFinite_ofRat
    (s : Bool)
    (q : ℚ) :
    (ofRat s q).IsFinite := by
  unfold ofRat
  split
  · cases s <;> trivial
  · trivial

@[simp] theorem toRat_ofRat
    (s : Bool)
    (q : ℚ) :
    (ofRat s q).toRat = q := by
  unfold ofRat
  split
  · rename_i hZero
    cases s <;> simp [zero, toRat, hZero]
  · rfl

/- A finite datum is a rational or the negative zero. -/
theorem IsFinite.cases
    {x : ExtRat}
    (hx : x.IsFinite) :
    x = .negZero ∨ x = .fin x.toRat := by
  cases x with
  | nan => exact hx.elim
  | inf s => exact hx.elim
  | negZero => exact Or.inl rfl
  | fin q => exact Or.inr rfl

theorem neg_finite
    {x : ExtRat}
    (hx : x.IsFinite) :
    (neg x).IsFinite ∧ (neg x).toRat = -x.toRat := by
  rcases hx.cases with h | h <;> rw [h]
  · simp [neg, toRat]
  · simp [neg]

theorem add_finite
    {x y : ExtRat}
    (hx : x.IsFinite)
    (hy : y.IsFinite) :
    (x + y).IsFinite ∧
      (x + y).toRat = x.toRat + y.toRat := by
  change (add x y).IsFinite ∧ (add x y).toRat = _
  rcases hx.cases with h | h <;>
    rcases hy.cases with k | k <;>
    rw [h, k] <;> simp [add, toRat, IsFinite]

theorem sub_finite
    {x y : ExtRat}
    (hx : x.IsFinite)
    (hy : y.IsFinite) :
    (x - y).IsFinite ∧
      (x - y).toRat = x.toRat - y.toRat := by
  have hNeg := neg_finite hy
  have hAdd := add_finite hx hNeg.1
  refine ⟨hAdd.1, ?_⟩
  rw [sub_eq_add_neg, ← hNeg.2]
  exact hAdd.2

theorem mul_finite
    {x y : ExtRat}
    (hx : x.IsFinite)
    (hy : y.IsFinite) :
    (x * y).IsFinite ∧
      (x * y).toRat = x.toRat * y.toRat := by
  change (mul x y).IsFinite ∧ (mul x y).toRat = _
  rcases hx.cases with h | h <;>
    rcases hy.cases with k | k <;>
    rw [h, k] <;> simp [mul]

theorem div_finite
    {x y : ExtRat}
    (hx : x.IsFinite)
    (hy : y.IsFinite)
    (hNe : y.toRat ≠ 0) :
    (x / y).IsFinite ∧
      (x / y).toRat = x.toRat / y.toRat := by
  change (div x y).IsFinite ∧ (div x y).toRat = _
  rcases hy.cases with k | k
  · rw [k] at hNe
    exact (hNe rfl).elim
  · rcases hx.cases with h | h <;>
      rw [h, k] <;> simp [div, hNe]

theorem lt_iff_of_finite
    {x y : ExtRat}
    (hx : x.IsFinite)
    (hy : y.IsFinite) :
    x < y ↔ x.toRat < y.toRat := by
  change lt x y ↔ _
  rcases hx.cases with h | h <;>
    rcases hy.cases with k | k <;>
    rw [h, k] <;> simp [lt]

/- The infinities lie beyond all finite data. -/
theorem neg_inf_lt
    {x : ExtRat}
    (hx : x.IsFinite) :
    ExtRat.inf true < x := by
  change lt _ _
  rcases hx.cases with h | h <;> rw [h] <;> simp [lt]

theorem lt_inf
    {x : ExtRat}
    (hx : x.IsFinite) :
    x < ExtRat.inf false := by
  change lt _ _
  rcases hx.cases with h | h <;> rw [h] <;> simp [lt]

theorem add_inf
    {x : ExtRat}
    (hx : x.IsFinite)
    (s : Bool) :
    x + .inf s = .inf s := by
  change add _ _ = _
  rcases hx.cases with h | h <;> rw [h] <;> simp [add]

theorem not_inf_lt
    {x : ExtRat}
    (hx : x.IsFinite) :
    ¬ ExtRat.inf false < x := by
  change ¬ lt _ _
  rcases hx.cases with h | h <;> rw [h] <;> simp [lt]

/- A datum between two finite ones is finite, if no NaN. -/
theorem isFinite_of_between
    {a x b : ExtRat}
    (ha : a.IsFinite)
    (hb : b.IsFinite)
    (hNan : x ≠ .nan)
    (hLow : ¬ x < a)
    (hHigh : ¬ b < x) :
    x.IsFinite := by
  cases x with
  | nan => exact (hNan rfl).elim
  | negZero => trivial
  | fin q => trivial
  | inf s =>
      cases s with
      | true => exact (hLow (neg_inf_lt ha)).elim
      | false => exact (hHigh (lt_inf hb)).elim

/- Whole numbers are added, subtracted and compared. -/
theorem ofInt_add
    (a b : Int) :
    ofInt a + ofInt b = ofInt (a + b) := by
  change ExtRat.fin _ = ExtRat.fin _
  push_cast
  rfl

theorem ofInt_sub
    (a b : Int) :
    ofInt a - ofInt b = ofInt (a - b) := by
  change add (ofInt a) (neg (ofInt b)) = ofInt (a - b)
  by_cases hb : (b : ℚ) = 0
  · simp [neg, ofInt, ofRat, hb, add, zero, toRat]
  · simp [neg, ofInt, ofRat, hb, add, sub_eq_add_neg]

theorem ofInt_div_one
    (a : Int) :
    ofInt a / ofInt 1 = ofInt a := by
  change div (ofInt a) (ofInt 1) = ofInt a
  by_cases ha : (a : ℚ) = 0
  · have hSign : decide ((1 : ℚ) < 0) = false := by
      norm_num
    simp [div, ofInt, ofRat, ha, signBit, hSign, zero]
  · simp [div, ofInt, ofRat, ha]

theorem ofInt_lt_iff
    (a b : Int) :
    ofInt a < ofInt b ↔ a < b := by
  rw [lt_iff_of_finite (isFinite_ofInt a) (isFinite_ofInt b),
    toRat_ofInt, toRat_ofInt, Int.cast_lt]

------------------------------------------------------------
-- Binary Formats
------------------------------------------------------------

/- `m * 2 ^ e` as a rational. -/
def scale (m : Int) (e : Int) : ℚ :=
  if 0 ≤ e then
    mkRat (m * 2 ^ e.toNat) 1
  else
    mkRat m (2 ^ (-e).toNat)

/- The value of a double given by its 64 bits. -/
def ofBits64 (bits : Nat) : ExtRat :=
  let negative := bits / 2 ^ 63 % 2 = 1
  let exponent : Nat := bits / 2 ^ 52 % 2 ^ 11
  let fraction : Nat := bits % 2 ^ 52
  if exponent = 2047 then
    if fraction = 0 then .inf (decide negative) else .nan
  else
    let significand : Nat :=
      if exponent = 0 then fraction else 2 ^ 52 + fraction
    let power : Int :=
      if exponent = 0 then -1074 else (exponent : Int) - 1075
    if significand = 0 then
      zero (decide negative)
    else if negative then
      .fin (scale (-significand) power)
    else
      .fin (scale significand power)

/-
  Conversion to an integer of the range `[-bound, bound)`:
  truncation towards zero, and the machine's indefinite
  value `-bound` where the number is out of range.
-/
def truncTo (bound : Int) (x : ExtRat) : Int :=
  match x with
  | .nan => -bound
  | .inf _ => -bound
  | .negZero => 0
  | .fin q =>
      let n := q.num.tdiv q.den
      if -bound ≤ n ∧ n < bound then n else -bound

theorem truncTo_range
    (bound : Int)
    (hPos : 0 < bound)
    (x : ExtRat) :
    -bound ≤ x.truncTo bound ∧ x.truncTo bound < bound := by
  cases x with
  | nan => exact ⟨le_rfl, by simp only [truncTo]; omega⟩
  | inf s => exact ⟨le_rfl, by simp only [truncTo]; omega⟩
  | negZero => exact ⟨by simp only [truncTo]; omega, hPos⟩
  | fin q =>
      simp only [truncTo]
      split_ifs with hIn
      · exact hIn
      · exact ⟨le_rfl, by omega⟩

/- A whole number in range is kept. -/
theorem truncTo_of_eq
    {bound n : Int}
    {x : ExtRat}
    (hFinite : x.IsFinite)
    (hEq : x.toRat = n)
    (hLow : -bound ≤ n)
    (hHigh : n < bound) :
    x.truncTo bound = n := by
  rcases hFinite.cases with h | h
  · rw [h] at hEq ⊢
    have hZero : (0 : ℚ) = n := hEq
    exact (Int.cast_eq_zero.mp hZero.symm).symm
  · rw [h, hEq]
    simp [truncTo, hLow, hHigh]

/- Truncation towards zero, without a range. -/
def trunc (q : ℚ) : Int :=
  q.num.tdiv q.den

theorem trunc_of_nonneg
    {q : ℚ}
    (hNonneg : 0 ≤ q) :
    trunc q = ⌊q⌋ := by
  unfold trunc
  rw [Rat.floor_def',
    Int.tdiv_eq_ediv_of_nonneg (Rat.num_nonneg.mpr hNonneg)]

theorem trunc_of_nonpos
    {q : ℚ}
    (hNonpos : q ≤ 0) :
    trunc q = ⌈q⌉ := by
  have hNeg : trunc (-q) = ⌊-q⌋ :=
    trunc_of_nonneg (neg_nonneg.mpr hNonpos)
  have hFlip : trunc (-q) = -trunc q := by
    simp [trunc, Int.neg_tdiv]
  rw [hFlip, Int.floor_neg] at hNeg
  exact neg_injective hNeg

@[simp] theorem trunc_intCast
    (n : Int) :
    trunc (n : ℚ) = n := by
  simp [trunc]

/- In range, a conversion is the truncation. -/
theorem truncTo_eq_trunc
    {bound : Int}
    {x : ExtRat}
    (hFinite : x.IsFinite)
    (hLow : -bound ≤ trunc x.toRat)
    (hHigh : trunc x.toRat < bound) :
    x.truncTo bound = trunc x.toRat := by
  rcases hFinite.cases with h | h
  · rw [h]
    rfl
  · calc
      x.truncTo bound = (ExtRat.fin x.toRat).truncTo bound := by
        rw [← h]
      _ = trunc x.toRat := if_pos ⟨hLow, hHigh⟩

end ExtRat

namespace Binary32

/-
  The 32 bits of the single nearest to `m * 2 ^ e`, ties to
  even, an infinity beyond the largest single.
-/
def pack (negative : Bool) (m : Nat) (e : Int) : UInt32 :=
  let sign : Nat := if negative then 2 ^ 31 else 0
  if m = 0 then
    UInt32.ofNat sign
  else
    let top : Int := max (m.log2 + e) (-126)
    let unit : Int := top - 23
    let rounded : Nat :=
      if unit ≤ e then
        m * 2 ^ (e - unit).toNat
      else
        let drop := (unit - e).toNat
        let q := m / 2 ^ drop
        let r := m % 2 ^ drop
        let half := 2 ^ (drop - 1)
        if half < r ∨ (r = half ∧ q % 2 = 1) then q + 1 else q
    let magnitude := (top + 126).toNat * 2 ^ 23 + rounded
    UInt32.ofNat (sign + min magnitude 0x7F800000)

/- Conversion of an integer to a single. -/
def ofInt (n : Int) : UInt32 :=
  pack (decide (n < 0)) n.natAbs 0

/-
  Conversion of a double to a single.  A NaN stays NaN,
  made quiet, with the top of its payload.
-/
def ofBits64 (bits : Nat) : UInt32 :=
  let negative := bits / 2 ^ 63 % 2 = 1
  let exponent : Nat := bits / 2 ^ 52 % 2 ^ 11
  let fraction : Nat := bits % 2 ^ 52
  let sign : Nat := if negative then 2 ^ 31 else 0
  if exponent = 2047 then
    if fraction = 0 then
      UInt32.ofNat (sign + 0x7F800000)
    else
      UInt32.ofNat
        (sign + 0x7FC00000 + fraction / 2 ^ 29 % 2 ^ 22)
  else if exponent = 0 then
    pack (decide negative) fraction (-1074)
  else
    pack (decide negative) (2 ^ 52 + fraction)
      ((exponent : Int) - 1075)

example : ofInt (-12345) = 0xC640E400 := by decide

end Binary32
