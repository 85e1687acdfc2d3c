import Mathlib.Tactic
import Mathlib.Data.List.Basic

/-
  Byte-addressed memory and the integer encodings read
  from it.

  Key definitions include:
    * `ByteMem`
    * `ByteMem.read`
    * `ByteMem.swapAt`
    * `ByteMem.swapWords`
    * `ByteMem.HoldsAt`
    * `ByteOrder`
    * `ByteOrder.value`
    * `leBytes`
    * `wrap32`

  Key theorems include:
    * `ByteMem.read_swapAt_self`
    * `ByteMem.read_swapAt_of_disjoint`
    * `ByteMem.read_swapWords_word`
    * `ByteMem.holdsAt_append` and `ByteMem.holdsAt_flatMap`
    * `ByteOrder.value_reverse`
    * `leNat_leBytes`
-/

------------------------------------------------------------
-- Byte Orders And Encodings
------------------------------------------------------------

/- The two orders in which a word's bytes are stored. -/
inductive ByteOrder where
| little
| big
deriving DecidableEq, Repr

namespace ByteOrder

/- The other order. -/
def swap : ByteOrder → ByteOrder
| .little => .big
| .big => .little

end ByteOrder

/- Number whose least significant byte comes first. -/
def leNat : List UInt8 → Nat
| [] => 0
| b :: bs => b.toNat + 256 * leNat bs

/- The `w` bytes of a number, least significant first. -/
def leBytes : Nat → Nat → List UInt8
| 0, _ => []
| w + 1, n => UInt8.ofNat (n % 256) :: leBytes w (n / 256)

@[simp] theorem length_leBytes
    (w n : Nat) :
    (leBytes w n).length = w := by
  induction w generalizing n with
  | zero => rfl
  | succ w ih => simp [leBytes, ih]

/- Reading back the bytes of a number that fits in them. -/
theorem leNat_leBytes
    {w n : Nat}
    (hFits : n < 256 ^ w) :
    leNat (leBytes w n) = n := by
  induction w generalizing n with
  | zero =>
      have hZero : n = 0 := by simpa using hFits
      simp [leBytes, leNat, hZero]
  | succ w ih =>
      have hRest : n / 256 < 256 ^ w := by
        rw [pow_succ] at hFits
        exact Nat.div_lt_of_lt_mul (by omega)
      have hByte : n % 256 % 2 ^ 8 = n % 256 := by
        apply Nat.mod_eq_of_lt
        omega
      simp only [leBytes, leNat, UInt8.toNat_ofNat', hByte,
        ih hRest]
      omega

namespace ByteOrder

/- The number a list of bytes stands for in an order. -/
def value : ByteOrder → List UInt8 → Nat
| .little, bs => leNat bs
| .big, bs => leNat bs.reverse

/- The bytes of a number laid out in an order. -/
def bytes : ByteOrder → Nat → Nat → List UInt8
| .little, w, n => leBytes w n
| .big, w, n => (leBytes w n).reverse

@[simp] theorem length_bytes
    (o : ByteOrder)
    (w n : Nat) :
    (o.bytes w n).length = w := by
  cases o <;> simp [bytes]

theorem length_flatMap_bytes
    (o : ByteOrder)
    (w : Nat)
    (ns : List Nat) :
    (ns.flatMap (o.bytes w)).length = w * ns.length := by
  have hEach : ∀ n ∈ ns, (o.bytes w n).length = w :=
    fun n _ => length_bytes o w n
  rw [List.length_flatMap, List.map_congr_left hEach]
  simp [Nat.mul_comm]

/- Reversing the bytes is reading in the other order. -/
theorem value_reverse
    (o : ByteOrder)
    (bs : List UInt8) :
    o.value bs.reverse = o.swap.value bs := by
  cases o <;> simp [value, swap]

@[simp] theorem reverse_bytes
    (o : ByteOrder)
    (w n : Nat) :
    (o.bytes w n).reverse = o.swap.bytes w n := by
  cases o <;> simp [bytes, swap]

@[simp] theorem swap_swap
    (o : ByteOrder) :
    o.swap.swap = o := by
  cases o <;> rfl

/- Reading a number back in the order it was laid out in. -/
theorem value_bytes
    (o : ByteOrder)
    {w n : Nat}
    (hFits : n < 256 ^ w) :
    o.value (o.bytes w n) = n := by
  cases o <;> simp [value, bytes, leNat_leBytes hFits]

end ByteOrder

------------------------------------------------------------
-- Machine Integers
------------------------------------------------------------

/- Two's complement value of the low 32 bits. -/
def wrap32 (x : Int) : Int :=
  (x + 2 ^ 31) % 2 ^ 32 - 2 ^ 31

/- And of the low 64 bits. -/
def wrap64 (x : Int) : Int :=
  (x + 2 ^ 63) % 2 ^ 64 - 2 ^ 63

theorem wrap64_of_mem
    {x : Int}
    (hLow : -2 ^ 63 ≤ x)
    (hHigh : x < 2 ^ 63) :
    wrap64 x = x := by
  unfold wrap64
  omega

theorem wrap64_range
    (x : Int) :
    -2 ^ 63 ≤ wrap64 x ∧ wrap64 x < 2 ^ 63 := by
  unfold wrap64
  omega

theorem wrap32_of_mem
    {x : Int}
    (hLow : -2 ^ 31 ≤ x)
    (hHigh : x < 2 ^ 31) :
    wrap32 x = x := by
  unfold wrap32
  omega

theorem wrap32_of_carry
    {x : Int}
    (hLow : 2 ^ 31 ≤ x)
    (hHigh : x < 2 ^ 31 + 2 ^ 32) :
    wrap32 x = x - 2 ^ 32 := by
  unfold wrap32
  omega

theorem wrap32_wrap32_add
    (x y : Int) :
    wrap32 (wrap32 x + y) = wrap32 (x + y) := by
  unfold wrap32
  omega

theorem wrap32_lower
    (x : Int) :
    -2 ^ 31 ≤ wrap32 x := by
  unfold wrap32
  omega

theorem wrap32_upper
    (x : Int) :
    wrap32 x < 2 ^ 31 := by
  unfold wrap32
  omega

------------------------------------------------------------
-- Memory
------------------------------------------------------------

/- Memory as the byte at every address. -/
abbrev ByteMem := Int → UInt8

namespace ByteMem

/- The `n` bytes from address `p` on. -/
def read
    (m : ByteMem)
    (p : Int)
    (n : Nat) :
    List UInt8 :=
  (List.range n).map (fun i : Nat => m (p + i))

/- Reverse the `n` bytes at `p` in place. -/
def swapAt
    (m : ByteMem)
    (p : Int)
    (n : Nat) :
    ByteMem :=
  fun i =>
    if p ≤ i ∧ i < p + n then m (2 * p + n - 1 - i) else m i

/- Overwrite one byte. -/
def set
    (m : ByteMem)
    (p : Int)
    (b : UInt8) :
    ByteMem :=
  fun i => if i = p then b else m i

/- Reverse `k` consecutive words of `w` bytes, first to last. -/
def swapWords
    (m : ByteMem)
    (p : Int)
    (w : Nat) :
    Nat → ByteMem
| 0 => m
| k + 1 => (swapWords m p w k).swapAt (p + k * w) w

@[simp] theorem length_read
    (m : ByteMem)
    (p : Int)
    (n : Nat) :
    (m.read p n).length = n := by
  simp [read]

theorem getElem_read
    (m : ByteMem)
    (p : Int)
    {n i : Nat}
    (hi : i < (m.read p n).length) :
    (m.read p n)[i] = m (p + i) := by
  simp [read]

/- A read is a read of the front and a read of the rest. -/
theorem read_add
    (m : ByteMem)
    (p : Int)
    (a b : Nat) :
    m.read p (a + b) = m.read p a ++ m.read (p + a) b := by
  unfold read
  rw [List.range_add, List.map_append, List.map_map]
  congr 1
  apply List.map_congr_left
  intro i _
  simp [add_assoc]

theorem read_succ
    (m : ByteMem)
    (p : Int)
    (n : Nat) :
    m.read p (n + 1) = m p :: m.read (p + 1) n := by
  rw [Nat.add_comm n 1, read_add]
  simp [read]

/- Reads agree where the memories agree. -/
theorem read_congr
    {m m' : ByteMem}
    {p : Int}
    {n : Nat}
    (hAgree : ∀ i : Int, p ≤ i → i < p + n → m i = m' i) :
    m.read p n = m'.read p n := by
  unfold read
  apply List.map_congr_left
  intro i hi
  have hLt : i < n := List.mem_range.mp hi
  exact hAgree _ (by omega) (by omega)

/- Equal reads are equal bytes. -/
theorem eq_of_read_eq
    {m m' : ByteMem}
    {p : Int}
    {n : Nat}
    (hRead : m.read p n = m'.read p n)
    {i : Int}
    (hLow : p ≤ i)
    (hHigh : i < p + n) :
    m i = m' i := by
  have hIdx : (i - p).toNat < n := by omega
  have hAddr : p + ((i - p).toNat : Int) = i := by omega
  have hGet :
      (m.read p n)[(i - p).toNat]? =
        (m'.read p n)[(i - p).toNat]? := by
    rw [hRead]
  simpa only [read, List.getElem?_map,
    List.getElem?_range hIdx, Option.map_some, hAddr,
    Option.some.injEq] using hGet

/- Bytes outside the reversed word are untouched. -/
theorem swapAt_of_outside
    (m : ByteMem)
    {p i : Int}
    {n : Nat}
    (hOut : i < p ∨ p + n ≤ i) :
    m.swapAt p n i = m i := by
  unfold swapAt
  rw [if_neg]
  omega

/- Reading the word back gives its bytes reversed. -/
theorem read_swapAt_self
    (m : ByteMem)
    (p : Int)
    (n : Nat) :
    (m.swapAt p n).read p n = (m.read p n).reverse := by
  apply List.ext_getElem
  · simp
  · intro i hLeft hRight
    have hi : i < n := by simpa using hLeft
    rw [getElem_read, List.getElem_reverse, getElem_read]
    simp only [length_read]
    unfold swapAt
    rw [if_pos (by omega)]
    congr 1
    omega

/- Reading away from the word gives the old bytes. -/
theorem read_swapAt_of_disjoint
    (m : ByteMem)
    {p q : Int}
    {n k : Nat}
    (hDisjoint : q + k ≤ p ∨ p + n ≤ q) :
    (m.swapAt p n).read q k = m.read q k := by
  apply read_congr
  intro i hLow hHigh
  exact swapAt_of_outside m (by omega)

theorem set_of_ne
    (m : ByteMem)
    {p i : Int}
    (b : UInt8)
    (hNe : i ≠ p) :
    m.set p b i = m i := by
  simp [set, hNe]

@[simp] theorem set_self
    (m : ByteMem)
    (p : Int)
    (b : UInt8) :
    m.set p b p = b := by
  simp [set]

/- Overwriting a byte with itself changes nothing. -/
theorem set_eq_self
    (m : ByteMem)
    (p : Int) :
    m.set p (m p) = m := by
  funext i
  by_cases hi : i = p
  · subst hi
    simp
  · exact set_of_ne m _ hi

theorem read_set_of_outside
    (m : ByteMem)
    {p q : Int}
    {k : Nat}
    (b : UInt8)
    (hOut : p < q ∨ q + k ≤ p) :
    (m.set p b).read q k = m.read q k := by
  apply read_congr
  intro i hLow hHigh
  exact set_of_ne m b (by omega)

/- Bytes outside the run of words are untouched. -/
theorem swapWords_of_outside
    (m : ByteMem)
    {p i : Int}
    (w k : Nat)
    (hOut : i < p ∨ p + k * w ≤ i) :
    m.swapWords p w k i = m i := by
  induction k with
  | zero => rfl
  | succ k ih =>
      have hGrow :
          ((k + 1 : Nat) : Int) * w = k * w + w := by
        push_cast
        ring
      rw [hGrow] at hOut
      have hNonneg : (0 : Int) ≤ k * w := by positivity
      simp only [swapWords]
      rw [swapAt_of_outside _ (by omega), ih (by omega)]

theorem read_swapWords_of_disjoint
    (m : ByteMem)
    {p q : Int}
    {w k n : Nat}
    (hDisjoint : q + n ≤ p ∨ p + k * w ≤ q) :
    (m.swapWords p w k).read q n = m.read q n := by
  apply read_congr
  intro i hLow hHigh
  exact swapWords_of_outside m w k (by omega)

/- Each word of the run is reversed. -/
theorem read_swapWords_word
    (m : ByteMem)
    (p : Int)
    (w : Nat)
    {k j : Nat}
    (hj : j < k) :
    (m.swapWords p w k).read (p + j * w) w =
      (m.read (p + j * w) w).reverse := by
  induction k with
  | zero => omega
  | succ k ih =>
      simp only [swapWords]
      rcases Nat.lt_or_ge j k with hLt | hGe
      · have hBefore :
            p + (j : Int) * w + w ≤ p + k * w := by
          have hStep : ((j + 1 : Nat) : Int) * w ≤ k * w := by
            gcongr
            exact hLt
          push_cast at hStep
          linarith
        rw [read_swapAt_of_disjoint _ (Or.inl hBefore)]
        exact ih hLt
      · have hEq : j = k := by omega
        subst hEq
        rw [read_swapAt_self]
        rw [read_swapWords_of_disjoint _
          (Or.inr (le_refl _))]

/- A list of bytes lies at an address. -/
def HoldsAt
    (m : ByteMem)
    (p : Int)
    (bs : List UInt8) : Prop :=
  m.read p bs.length = bs

theorem holdsAt_append
    {m : ByteMem}
    {p : Int}
    {as bs : List UInt8} :
    m.HoldsAt p (as ++ bs) ↔
      m.HoldsAt p as ∧ m.HoldsAt (p + as.length) bs := by
  unfold HoldsAt
  rw [List.length_append, read_add]
  constructor
  · intro h
    exact List.append_inj h (by simp)
  · rintro ⟨hAs, hBs⟩
    rw [hAs, hBs]

theorem holdsAt_cons
    {m : ByteMem}
    {p : Int}
    {b : UInt8}
    {bs : List UInt8} :
    m.HoldsAt p (b :: bs) ↔
      m p = b ∧ m.HoldsAt (p + 1) bs := by
  unfold HoldsAt
  rw [List.length_cons, read_succ, List.cons.injEq]

@[simp] theorem holdsAt_nil
    (m : ByteMem)
    (p : Int) :
    m.HoldsAt p [] := rfl

/- Memories that agree there hold the same list. -/
theorem holdsAt_congr
    {m m' : ByteMem}
    {p : Int}
    {bs : List UInt8}
    (hAgree :
      ∀ i : Int, p ≤ i → i < p + bs.length → m i = m' i) :
    m.HoldsAt p bs ↔ m'.HoldsAt p bs := by
  unfold HoldsAt
  rw [read_congr hAgree]

/- A run of words lies at an address when each word does. -/
theorem holdsAt_flatMap
    {α : Type}
    {m : ByteMem}
    {p : Int}
    {w : Nat}
    {f : α → List UInt8}
    (hLen : ∀ a, (f a).length = w)
    {as : List α} :
    m.HoldsAt p (as.flatMap f) ↔
      ∀ j (hj : j < as.length),
        m.read (p + j * w) w = f as[j] := by
  induction as generalizing p with
  | nil => simp
  | cons a as ih =>
      rw [List.flatMap_cons, holdsAt_append, ih]
      have hShift (j : Nat) :
          p + (f a).length + (j : Int) * w =
            p + ((j + 1 : Nat) : Int) * w := by
        rw [hLen]
        push_cast
        ring
      unfold HoldsAt
      constructor
      · rintro ⟨hHead, hTail⟩ j hj
        cases j with
        | zero => simpa [hLen] using hHead
        | succ j =>
            have hRest := hTail j (by simpa using hj)
            rw [hShift] at hRest
            simpa using hRest
      · intro h
        constructor
        · have hHead := h 0 (by simp)
          simpa [hLen] using hHead
        · intro j hj
          have hRest := h (j + 1) (by simpa using hj)
          rw [hShift]
          simpa using hRest

end ByteMem
