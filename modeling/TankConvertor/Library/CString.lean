import TankConvertor.Library.Memory
import Mathlib.Data.List.Lex
import Mathlib.Data.Prod.Lex

/-
  NUL-terminated strings in byte buffers: comparison, copies
  and conversion to an integer.

  Key definitions include:
    * `cstr`
    * `strcmp`
    * `strncpy` and `upcase`
    * `atoi`

  Key theorems include:
    * `strcmp_lt_zero_iff`
    * `strcmp_eq_zero_iff`
    * `cstr_strncpy` and `cstr_upcase`
    * `atoi_of_digit` and `atoi_congr`
    * `atoi_eq_digit_iff`
-/

------------------------------------------------------------
-- String Contents And Comparison
------------------------------------------------------------

/- The characters before the terminator. -/
def cstr (bs : List UInt8) : List UInt8 :=
  bs.takeWhile (fun b => b ≠ 0)

/- The characters as numbers, for ordering. -/
def strKey (bs : List UInt8) : List Nat :=
  (cstr bs).map UInt8.toNat

/-
  Difference of the first two bytes that differ, read up to
  the terminator; the end of a buffer reads as one.
-/
def strcmp : List UInt8 → List UInt8 → Int
| [], [] => 0
| [], b :: _ => -(b.toNat : Int)
| a :: _, [] => (a.toNat : Int)
| a :: as, b :: bs =>
    if a ≠ b then (a.toNat : Int) - b.toNat
    else if a = 0 then 0
    else strcmp as bs

@[simp] theorem cstr_nil : cstr [] = [] := rfl

theorem cstr_cons
    (b : UInt8)
    (bs : List UInt8) :
    cstr (b :: bs) = if b = 0 then [] else b :: cstr bs := by
  unfold cstr
  by_cases hb : b = 0
  · simp [hb]
  · simp [hb]

/- What follows a terminator does not belong to the string. -/
theorem cstr_append_of_mem
    {bs : List UInt8}
    (hZero : (0 : UInt8) ∈ bs)
    (cs : List UInt8) :
    cstr (bs ++ cs) = cstr bs := by
  induction bs with
  | nil => simp at hZero
  | cons b bs ih =>
      rw [List.cons_append, cstr_cons, cstr_cons]
      by_cases hb : b = 0
      · simp [hb]
      · have hRest : (0 : UInt8) ∈ bs := by
          rcases List.mem_cons.mp hZero with h | h
          · exact (hb h.symm).elim
          · exact h
        rw [if_neg hb, if_neg hb, ih hRest]

/- No terminator stands before the first one. -/
theorem zero_not_mem_cstr
    (bs : List UInt8) :
    (0 : UInt8) ∉ cstr bs := by
  induction bs with
  | nil => simp
  | cons b bs ih =>
      rw [cstr_cons]
      by_cases hb : b = 0
      · simp [hb]
      · simpa [hb] using ⟨Ne.symm hb, ih⟩

/- A terminated string is shorter than its array. -/
theorem length_cstr_lt
    {bs : List UInt8}
    (hZero : (0 : UInt8) ∈ bs) :
    (cstr bs).length < bs.length := by
  have hPrefix : cstr bs <+: bs :=
    List.takeWhile_prefix (fun b => decide (b ≠ 0))
  rcases lt_or_eq_of_le hPrefix.length_le with hLt | hEq
  · exact hLt
  · rw [← hPrefix.eq_of_length hEq] at hZero
    exact (zero_not_mem_cstr bs hZero).elim

/- Bytes other than the terminator come before the rest. -/
theorem cstr_append_of_not_mem
    {bs : List UInt8}
    (hZero : (0 : UInt8) ∉ bs)
    (cs : List UInt8) :
    cstr (bs ++ cs) = bs ++ cstr cs := by
  induction bs with
  | nil => rfl
  | cons b bs ih =>
      rw [List.mem_cons, not_or] at hZero
      rw [List.cons_append, cstr_cons, if_neg (Ne.symm hZero.1),
        ih hZero.2, List.cons_append]

theorem cstr_of_not_mem
    {bs : List UInt8}
    (hZero : (0 : UInt8) ∉ bs) :
    cstr bs = bs := by
  simpa using cstr_append_of_not_mem hZero []

theorem strKey_inj
    {as bs : List UInt8} :
    strKey as = strKey bs ↔ cstr as = cstr bs := by
  unfold strKey
  constructor
  · intro h
    exact List.map_injective_iff.mpr
      (fun _ _ hEq => UInt8.toNat_inj.mp hEq) h
  · intro h
    rw [h]

/- A byte other than the terminator is positive. -/
private theorem toNat_pos
    {b : UInt8}
    (hb : b ≠ 0) :
    0 < b.toNat := by
  rcases Nat.eq_zero_or_pos b.toNat with h | h
  · exact (hb (UInt8.toNat_inj.mp (by simpa using h))).elim
  · exact h

/- `strcmp` orders strings as the lists of their bytes. -/
theorem strcmp_lt_zero_iff :
    ∀ as bs : List UInt8,
      strcmp as bs < 0 ↔ strKey as < strKey bs
| [], [] => by
    simp [strcmp, strKey]
| [], b :: bs => by
    by_cases hb : b = 0
    · simp [strcmp, strKey, cstr_cons, hb]
    · have hPos := toNat_pos hb
      simp [strcmp, strKey, cstr_cons, hb, hPos]
| a :: as, [] => by
    have hNonneg : ¬ ((a.toNat : Int) < 0) := by omega
    simp [strcmp, strKey, hNonneg]
| a :: as, b :: bs => by
    by_cases hEq : a = b
    · subst hEq
      by_cases ha : a = 0
      · simp [strcmp, strKey, cstr_cons, ha]
      · have ih := strcmp_lt_zero_iff as bs
        simp only [strKey] at ih
        simp [strcmp, strKey, cstr_cons, ha, ih]
    · have hNe : a.toNat ≠ b.toNat := by
        intro h
        exact hEq (UInt8.toNat_inj.mp h)
      have hDiff :
          strcmp (a :: as) (b :: bs) =
            (a.toNat : Int) - b.toNat := by
        simp [strcmp, hEq]
      rw [hDiff]
      unfold strKey
      rw [cstr_cons, cstr_cons]
      by_cases hb : b = 0
      · simp [hb]
      · have hPos := toNat_pos hb
        rw [if_neg hb]
        by_cases ha : a = 0
        · have hZero : a.toNat = 0 := by simp [ha]
          have hTrue : (a.toNat : Int) - b.toNat < 0 := by
            omega
          simp only [ha, if_true, List.map_nil, List.map_cons,
            List.nil_lt_cons, iff_true]
          simpa [ha] using hTrue
        · rw [if_neg ha, List.map_cons, List.map_cons,
            List.cons_lt_cons_iff]
          constructor
          · intro h
            exact Or.inl (by omega)
          · rintro (h | ⟨h, _⟩)
            · omega
            · exact (hNe h).elim

/- `strcmp` is zero exactly on equal strings. -/
theorem strcmp_eq_zero_iff :
    ∀ as bs : List UInt8,
      strcmp as bs = 0 ↔ cstr as = cstr bs
| [], [] => by
    simp [strcmp]
| [], b :: bs => by
    by_cases hb : b = 0
    · simp [strcmp, cstr_cons, hb]
    · have hPos := toNat_pos hb
      simp [strcmp, cstr_cons, hb]
      omega
| a :: as, [] => by
    by_cases ha : a = 0
    · simp [strcmp, cstr_cons, ha]
    · have hPos := toNat_pos ha
      simp [strcmp, cstr_cons, ha]
      omega
| a :: as, b :: bs => by
    by_cases hEq : a = b
    · subst hEq
      by_cases ha : a = 0
      · simp [strcmp, cstr_cons, ha]
      · have ih := strcmp_eq_zero_iff as bs
        simp [strcmp, cstr_cons, ha, ih]
    · have hNe : (a.toNat : Int) - b.toNat ≠ 0 := by
        intro h
        exact hEq (UInt8.toNat_inj.mp (by omega))
      simp only [strcmp, ne_eq, hEq, not_false_eq_true,
        if_true, hNe, false_iff, cstr_cons]
      by_cases ha : a = 0
      · have hb : b ≠ 0 := by
          intro h
          exact hEq (ha.trans h.symm)
        simp [ha, hb]
      · by_cases hb : b = 0
        · simp [ha, hb]
        · simp [ha, hb, hEq]

------------------------------------------------------------
-- Copies And Capitals
------------------------------------------------------------

/-
  `strncpy` of `n` bytes to a buffer: the string cut to `n`
  bytes, terminators up to that many, and the bytes that the
  buffer had after them.
-/
def strncpy
    (dst src : List UInt8)
    (n : Nat) :
    List UInt8 :=
  let s := (cstr src).take n
  s ++ List.replicate (n - s.length) 0 ++ dst.drop n

/- A buffer with a terminator after `n` bytes ends there. -/
theorem cstr_strncpy
    {dst : List UInt8}
    {n : Nat}
    (hEnd : cstr (dst.drop n) = [])
    (src : List UInt8) :
    cstr (strncpy dst src n) = (cstr src).take n := by
  have hZero : (0 : UInt8) ∉ (cstr src).take n :=
    fun hMem => zero_not_mem_cstr src (List.mem_of_mem_take hMem)
  unfold strncpy
  rw [List.append_assoc, cstr_append_of_not_mem hZero]
  cases n - ((cstr src).take n).length with
  | zero => simp [hEnd]
  | succ k => simp [List.replicate_succ, cstr_cons]

/- The rest of the buffer stays. -/
theorem drop_strncpy
    (dst src : List UInt8)
    (n : Nat) :
    (strncpy dst src n).drop n = dst.drop n := by
  have hLen :
      ((cstr src).take n ++
          List.replicate (n - ((cstr src).take n).length)
            0).length = n := by
    simp only [List.length_append, List.length_replicate,
      List.length_take]
    omega
  unfold strncpy
  exact List.drop_left' hLen

/- `toupper` of the plain letters. -/
def toupper (b : UInt8) : UInt8 :=
  if 97 ≤ b ∧ b ≤ 122 then b - 32 else b

theorem toupper_eq_zero_iff
    (b : UInt8) :
    toupper b = 0 ↔ b = 0 := by
  unfold toupper
  split
  · rename_i hLetter
    rw [UInt8.le_iff_toNat_le, UInt8.le_iff_toNat_le] at hLetter
    constructor
    · intro h
      have hNat := congrArg UInt8.toNat h
      rw [UInt8.toNat_sub_of_le _ _
        (UInt8.le_iff_toNat_le.mpr (by simp at *; omega))]
        at hNat
      simp at hLetter hNat
      omega
    · rintro rfl
      simp at hLetter
  · rfl

/- Capitals up to the terminator. -/
def upcase : List UInt8 → List UInt8
| [] => []
| b :: bs => if b = 0 then b :: bs else toupper b :: upcase bs

theorem cstr_upcase
    (bs : List UInt8) :
    cstr (upcase bs) = (cstr bs).map toupper := by
  induction bs with
  | nil => rfl
  | cons b bs ih =>
      unfold upcase
      by_cases hb : b = 0
      · simp [hb, cstr_cons]
      · have hUp : toupper b ≠ 0 :=
          fun h => hb ((toupper_eq_zero_iff b).mp h)
        rw [if_neg hb, cstr_cons, cstr_cons, if_neg hUp,
          if_neg hb, ih, List.map_cons]

/- What follows the terminator is left alone. -/
theorem drop_upcase
    {bs : List UInt8}
    {n : Nat}
    (hEnd : cstr (bs.drop n) = []) :
    cstr ((upcase bs).drop n) = [] := by
  induction n generalizing bs with
  | zero =>
      rw [List.drop_zero] at hEnd ⊢
      rw [cstr_upcase, hEnd, List.map_nil]
  | succ n ih =>
      cases bs with
      | nil => rfl
      | cons b bs =>
          rw [List.drop_succ_cons] at hEnd
          unfold upcase
          split
          · rwa [List.drop_succ_cons]
          · rw [List.drop_succ_cons]
            exact ih hEnd

------------------------------------------------------------
-- Conversion To An Integer
------------------------------------------------------------

def isspace (b : UInt8) : Bool :=
  b = 32 ∨ (9 ≤ b ∧ b ≤ 13)

def isdigit (b : UInt8) : Bool :=
  48 ≤ b ∧ b ≤ 57

/- Decimal value of the digits at the head of a string. -/
def digitsValue (acc : Nat) : List UInt8 → Nat
| [] => acc
| b :: bs =>
    if isdigit b then
      digitsValue (acc * 10 + (b.toNat - 48)) bs
    else
      acc

/-
  `strtol` in base ten: blanks, an optional sign, digits;
  the result is held at the ends of the 64-bit range.
-/
def strtol (bs : List UInt8) : Int :=
  match bs.dropWhile isspace with
  | 45 :: ds => max (-(digitsValue 0 ds : Int)) (-2 ^ 63)
  | 43 :: ds => min (digitsValue 0 ds : Int) (2 ^ 63 - 1)
  | ds => min (digitsValue 0 ds : Int) (2 ^ 63 - 1)

/- `atoi` keeps the low 32 bits of what `strtol` returns. -/
def atoi (bs : List UInt8) : Int :=
  wrap32 (strtol bs)

/- Digits after the first that is none do not count. -/
theorem digitsValue_takeWhile
    (acc : Nat)
    (bs : List UInt8) :
    digitsValue acc bs = digitsValue acc (bs.takeWhile isdigit) := by
  induction bs generalizing acc with
  | nil => rfl
  | cons b bs ih =>
      by_cases hb : isdigit b = true
      · rw [List.takeWhile_cons_of_pos hb]
        simp only [digitsValue, hb, if_true]
        exact ih _
      · rw [List.takeWhile_cons_of_neg hb]
        simp [digitsValue, hb]

/- A string that begins with a digit has no sign to read. -/
theorem strtol_of_digit
    {b : UInt8}
    (bs : List UInt8)
    (hDigit : isdigit b) :
    strtol (b :: bs) =
      min (digitsValue 0 (b :: bs) : Int) (2 ^ 63 - 1) := by
  have hRange : 48 ≤ b.toNat ∧ b.toNat ≤ 57 := by
    simpa [isdigit, UInt8.le_iff_toNat_le] using hDigit
  have hSpace : isspace b = false := by
    simp only [isspace, UInt8.le_iff_toNat_le, decide_eq_false_iff_not,
      not_or, not_and]
    refine ⟨?_, ?_⟩
    · intro h
      subst h
      simp at hRange
    · intro _ h
      simp at h
      omega
  have hMinus : b ≠ 45 := by
    intro h
    subst h
    simp at hRange
  have hPlus : b ≠ 43 := by
    intro h
    subst h
    simp at hRange
  unfold strtol
  simp only [List.dropWhile, hSpace]
  split
  · rename_i h
    exact (hMinus (List.cons.inj h).1).elim
  · rename_i h
    exact (hPlus (List.cons.inj h).1).elim
  · rfl

/- A single digit before a character that is none. -/
theorem atoi_of_digit
    {b c : UInt8}
    (bs : List UInt8)
    (hDigit : isdigit b)
    (hStop : isdigit c = false) :
    atoi (b :: c :: bs) = (b.toNat : Int) - 48 := by
  have hRange : 48 ≤ b.toNat ∧ b.toNat ≤ 57 := by
    simpa [isdigit, UInt8.le_iff_toNat_le] using hDigit
  have hValue :
      digitsValue 0 (b :: c :: bs) = b.toNat - 48 := by
    simp [digitsValue, hDigit, hStop]
  unfold atoi
  rw [strtol_of_digit _ hDigit, hValue]
  unfold wrap32
  omega

/- Two strings that begin with the same digits. -/
theorem atoi_congr
    {b : UInt8}
    {as bs : List UInt8}
    (hDigit : isdigit b)
    (hSame :
      (b :: as).takeWhile isdigit = bs.takeWhile isdigit) :
    atoi (b :: as) = atoi bs := by
  rw [List.takeWhile_cons_of_pos hDigit] at hSame
  cases bs with
  | nil => simp at hSame
  | cons c bs =>
      have hDigit' : isdigit c = true := by
        by_contra hc
        rw [List.takeWhile_cons_of_neg hc] at hSame
        cases hSame
      rw [List.takeWhile_cons_of_pos hDigit'] at hSame
      unfold atoi
      rw [strtol_of_digit _ hDigit, strtol_of_digit _ hDigit',
        digitsValue_takeWhile 0 (b :: as),
        digitsValue_takeWhile 0 (c :: bs),
        List.takeWhile_cons_of_pos hDigit,
        List.takeWhile_cons_of_pos hDigit', hSame]

/- Further digits do not make the number smaller. -/
theorem le_digitsValue
    (acc : Nat)
    (bs : List UInt8) :
    acc ≤ digitsValue acc bs := by
  induction bs generalizing acc with
  | nil => exact le_rfl
  | cons b bs ih =>
      simp only [digitsValue]
      split
      · have hNext := ih (acc * 10 + (b.toNat - 48))
        omega
      · exact le_rfl

/-
  A digit run is read as its first digit when that stands
  alone, or when the 32 bits kept of a longer number happen
  to be it.
-/
theorem atoi_eq_digit_iff
    {b : UInt8}
    (bs : List UInt8)
    (hDigit : isdigit b)
    (hPos : 48 < b.toNat) :
    atoi (b :: bs) = (b.toNat : Int) - 48 ↔
      isdigit (bs.headD 0) = false ∨
        (2 ^ 32 < digitsValue 0 (b :: bs) ∧
          digitsValue 0 (b :: bs) < 2 ^ 63 ∧
          digitsValue 0 (b :: bs) % 2 ^ 32 =
            b.toNat - 48) := by
  have hRange : 48 ≤ b.toNat ∧ b.toNat ≤ 57 := by
    simpa [isdigit, UInt8.le_iff_toNat_le] using hDigit
  by_cases hNext : isdigit (bs.headD 0) = false
  · have hValue : digitsValue 0 (b :: bs) = b.toNat - 48 := by
      cases bs with
      | nil => simp [digitsValue, hDigit]
      | cons c bs =>
          have hStop : isdigit c = false := hNext
          simp [digitsValue, hDigit, hStop]
    refine ⟨fun _ => Or.inl hNext, fun _ => ?_⟩
    unfold atoi
    rw [strtol_of_digit _ hDigit, hValue]
    unfold wrap32
    omega
  · have hMore :
        10 * (b.toNat - 48) ≤ digitsValue 0 (b :: bs) := by
      cases bs with
      | nil => exact (hNext (by decide)).elim
      | cons c bs =>
          have hDigit' : isdigit c = true := by
            simpa using hNext
          simp only [digitsValue, hDigit, hDigit', if_true]
          have hGrow :=
            le_digitsValue
              ((0 * 10 + (b.toNat - 48)) * 10 + (c.toNat - 48))
              bs
          omega
    unfold atoi
    rw [strtol_of_digit _ hDigit]
    unfold wrap32
    constructor
    · intro hEq
      right
      omega
    · rintro (hStop | hLong)
      · exact (hNext hStop).elim
      · omega
