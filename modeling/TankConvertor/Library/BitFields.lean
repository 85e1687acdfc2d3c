import Mathlib.Tactic
import Mathlib.Data.Nat.Bitwise

/-
  Numbers cut into bit fields, and signed numbers kept in
  them in two's complement.

  Key definitions include:
    * `BitFields.extract`
    * `BitFields.pack` and `BitFields.unpack`
    * `BitFields.lowBits` and `BitFields.signExtend`

  Key theorems include:
    * `BitFields.unpack_pack`
    * `BitFields.extract_or`
    * `BitFields.signExtend_lowBits`
-/

------------------------------------------------------------
-- Fields
------------------------------------------------------------

namespace BitFields

/- `(v >> start) & ((1 << n) - 1)`. -/
def extract (v start n : Nat) : Nat :=
  (v >>> start) &&& (2 ^ n - 1)

theorem extract_eq
    (v start n : Nat) :
    extract v start n = v / 2 ^ start % 2 ^ n := by
  unfold extract
  rw [Nat.shiftRight_eq_div_pow,
    Nat.and_two_pow_sub_one_eq_mod]

@[simp] theorem extract_zero
    (start n : Nat) :
    extract 0 start n = 0 := by
  simp [extract]

/- Fields of a disjunction are disjunctions of fields. -/
theorem extract_or
    (a b start n : Nat) :
    extract (a ||| b) start n =
      extract a start n ||| extract b start n := by
  unfold extract
  rw [Nat.shiftRight_or_distrib, Nat.and_or_distrib_right]

/- A field is read where it was put. -/
theorem extract_shiftLeft_self
    {v n : Nat}
    (hFits : v < 2 ^ n)
    (start : Nat) :
    extract (v <<< start) start n = v := by
  rw [extract_eq, Nat.shiftLeft_eq,
    Nat.mul_div_cancel _ (Nat.two_pow_pos start),
    Nat.mod_eq_of_lt hFits]

/- Above a number there is nothing to read. -/
theorem extract_of_lt
    {v start : Nat}
    (hBelow : v < 2 ^ start)
    (n : Nat) :
    extract v start n = 0 := by
  rw [extract_eq, Nat.div_eq_of_lt hBelow, Nat.zero_mod]

/- Nor is there below a number shifted over the field. -/
theorem extract_shiftLeft_of_le
    (v : Nat)
    {start n k : Nat}
    (hAbove : start + n ≤ k) :
    extract (v <<< k) start n = 0 := by
  have hSplit : 2 ^ k = 2 ^ (k - start - n) * 2 ^ n * 2 ^ start := by
    rw [← pow_add, ← pow_add]
    congr 1
    omega
  rw [extract_eq, Nat.shiftLeft_eq, hSplit, ← mul_assoc,
    Nat.mul_div_cancel _ (Nat.two_pow_pos start), ← mul_assoc,
    Nat.mul_mod_left]

/- Putting a number on top of a smaller one is adding it. -/
theorem shiftLeft_or
    {b k : Nat}
    (hFits : b < 2 ^ k)
    (a : Nat) :
    a <<< k ||| b = a * 2 ^ k + b := by
  rw [← Nat.shiftLeft_add_eq_or_of_lt hFits, Nat.shiftLeft_eq]

/- The bits above a smaller number. -/
theorem extract_top
    {b k : Nat}
    (hFits : b < 2 ^ k)
    (a n : Nat) :
    extract (a <<< k ||| b) k n = a % 2 ^ n := by
  rw [extract_eq, shiftLeft_or hFits, Nat.mul_comm a,
    Nat.mul_add_div (Nat.two_pow_pos k), Nat.div_eq_of_lt hFits,
    Nat.add_zero]

------------------------------------------------------------
-- Rows Of Fields
------------------------------------------------------------

/- Fields of `w` bits side by side, the first one highest. -/
def pack (w : Nat) : List Nat → Nat
| [] => 0
| f :: fs => f <<< (w * fs.length) ||| pack w fs

/- The lowest `n` fields of `w` bits, the highest one first. -/
def unpack (w : Nat) : Nat → Nat → List Nat
| 0, _ => []
| n + 1, v => extract v (w * n) w :: unpack w n v

@[simp] theorem length_unpack
    (w n v : Nat) :
    (unpack w n v).length = n := by
  induction n with
  | zero => rfl
  | succ n ih => simp [unpack, ih]

theorem pack_lt
    {w : Nat}
    {fs : List Nat}
    (hFits : ∀ f ∈ fs, f < 2 ^ w) :
    pack w fs < 2 ^ (w * fs.length) := by
  induction fs with
  | nil => simp [pack]
  | cons f fs ih =>
      have hRest := ih fun g hg =>
        hFits g (List.mem_cons_of_mem f hg)
      have hFirst := hFits f List.mem_cons_self
      have hSplit :
          2 ^ (w * (fs.length + 1)) =
            2 ^ w * 2 ^ (w * fs.length) := by
        rw [← pow_add]
        congr 1
        ring
      have hRoom :
          (f + 1) * 2 ^ (w * fs.length) ≤
            2 ^ w * 2 ^ (w * fs.length) :=
        Nat.mul_le_mul_right _ hFirst
      rw [pack, List.length_cons, shiftLeft_or hRest, hSplit]
      rw [add_mul, one_mul] at hRoom
      omega

/- The fields come back, whatever stands above them. -/
theorem unpack_pack
    {w : Nat}
    {fs : List Nat}
    (hFits : ∀ f ∈ fs, f < 2 ^ w)
    (top : Nat) :
    unpack w fs.length (top <<< (w * fs.length) ||| pack w fs) =
      fs := by
  induction fs generalizing top with
  | nil => rfl
  | cons f fs ih =>
      have hFirst := hFits f List.mem_cons_self
      have hRest : ∀ g ∈ fs, g < 2 ^ w := fun g hg =>
        hFits g (List.mem_cons_of_mem f hg)
      -- The first field joins what stands above the others.
      have hJoin :
          top <<< (w * (fs.length + 1)) |||
              (f <<< (w * fs.length) ||| pack w fs) =
            (top <<< w ||| f) <<< (w * fs.length) |||
              pack w fs := by
        rw [← Nat.or_assoc, Nat.shiftLeft_or_distrib,
          ← Nat.shiftLeft_add]
        congr 3
        ring
      have hHead :
          extract
              ((top <<< w ||| f) <<< (w * fs.length) |||
                pack w fs)
              (w * fs.length) w =
            f := by
        rw [extract_top (pack_lt hRest), shiftLeft_or hFirst,
          Nat.mul_add_mod_of_lt hFirst]
      rw [pack, List.length_cons, hJoin, unpack, hHead,
        ih hRest]

------------------------------------------------------------
-- Two's Complement
------------------------------------------------------------

/- The low `w` bits of a number. -/
def lowBits (w : Nat) (x : Int) : Nat :=
  (x % 2 ^ w).toNat

/- `(v ^ m) - m` for the sign bit `m` of a field. -/
def signExtend (w : Nat) (v : Nat) : Int :=
  ((v ^^^ 2 ^ (w - 1) : Nat) : Int) - 2 ^ (w - 1)

theorem lowBits_lt
    (w : Nat)
    (x : Int) :
    lowBits w x < 2 ^ w := by
  have hPos : (0 : Int) < 2 ^ w := by positivity
  have hUpper := Int.emod_lt_of_pos x hPos
  have hLower := Int.emod_nonneg x hPos.ne'
  unfold lowBits
  zify
  omega

/- The sign bit, turned over. -/
theorem xor_two_pow
    (v k : Nat) :
    v ^^^ 2 ^ k = (v / 2 ^ k ^^^ 1) * 2 ^ k + v % 2 ^ k := by
  have hDiv : (v ^^^ 2 ^ k) / 2 ^ k = v / 2 ^ k ^^^ 1 := by
    rw [Nat.xor_div_two_pow, Nat.div_self (Nat.two_pow_pos k)]
  have hMod : (v ^^^ 2 ^ k) % 2 ^ k = v % 2 ^ k := by
    rw [Nat.xor_mod_two_pow, Nat.mod_self, Nat.xor_zero]
  rw [← hDiv, ← hMod, Nat.div_add_mod']

/- A number in range comes back with its sign. -/
theorem signExtend_lowBits
    {w : Nat}
    (hPos : 0 < w)
    {x : Int}
    (hLow : -2 ^ (w - 1) ≤ x)
    (hHigh : x < 2 ^ (w - 1)) :
    signExtend w (lowBits w x) = x := by
  obtain ⟨k, rfl⟩ : ∃ k, w = k + 1 := ⟨w - 1, by omega⟩
  rw [Nat.add_sub_cancel] at hLow hHigh
  have hPow : (0 : Int) < 2 ^ k := by positivity
  have hDouble : (2 : Int) ^ (k + 1) = 2 * 2 ^ k := by ring
  unfold signExtend lowBits
  rw [Nat.add_sub_cancel, xor_two_pow]
  rcases lt_or_ge x 0 with hNeg | hNonneg
  · have hMod : x % 2 ^ (k + 1) = x + 2 * 2 ^ k := by
      rw [hDouble, ← Int.add_emod_right,
        Int.emod_eq_of_lt (by omega) (by omega)]
    have hNat :
        (x + 2 * 2 ^ k).toNat = 2 ^ k * 1 + (x + 2 ^ k).toNat := by
      zify
      omega
    have hRest : (x + 2 ^ k).toNat < 2 ^ k := by
      zify
      omega
    rw [hMod, hNat, Nat.mul_add_div (Nat.two_pow_pos k),
      Nat.div_eq_of_lt hRest, Nat.mul_add_mod,
      Nat.mod_eq_of_lt hRest]
    push_cast
    omega
  · have hMod : x % 2 ^ (k + 1) = x := by
      rw [hDouble]
      exact Int.emod_eq_of_lt hNonneg (by omega)
    have hRest : x.toNat < 2 ^ k := by
      zify
      omega
    rw [hMod, Nat.div_eq_of_lt hRest, Nat.mod_eq_of_lt hRest]
    push_cast
    omega

/- Signed numbers come back out of the fields. -/
theorem unpack_pack_signed
    {w : Nat}
    (hPos : 0 < w)
    {xs : List Int}
    (hFits : ∀ x ∈ xs, -2 ^ (w - 1) ≤ x ∧ x < 2 ^ (w - 1))
    (top : Nat) :
    (unpack w xs.length
        (top <<< (w * xs.length) |||
          pack w (xs.map (lowBits w)))).map (signExtend w) =
      xs := by
  have hBelow : ∀ f ∈ xs.map (lowBits w), f < 2 ^ w := by
    intro f hf
    rcases List.mem_map.mp hf with ⟨x, -, rfl⟩
    exact lowBits_lt w x
  have hFields := unpack_pack hBelow top
  rw [List.length_map] at hFields
  have hBack :
      ∀ x ∈ xs, (signExtend w ∘ lowBits w) x = id x :=
    fun x hx =>
      signExtend_lowBits hPos (hFits x hx).1 (hFits x hx).2
  rw [hFields, List.map_map, List.map_congr_left hBack,
    List.map_id]

end BitFields
