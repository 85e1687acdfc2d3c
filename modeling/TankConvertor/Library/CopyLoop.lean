import Mathlib.Logic.Function.Basic
import Mathlib.Tactic

/-
  A loop that copies values into a buffer, with a position
  to read from and one to write at.  It stops at the end of
  the source or at a limit of the buffer, and can be resumed
  from the positions it has come to.

  Key definitions include:
    * `CopyLoop.Cursor`
    * `CopyLoop.copyTo`

  Key theorems include:
    * `CopyLoop.copyTo_resume`
    * `CopyLoop.copyTo_eq`
-/

namespace CopyLoop

variable {α : Type}

------------------------------------------------------------
-- The Loop
------------------------------------------------------------

/- A buffer, the position to write at and that to read at. -/
structure Cursor (α : Type) where
  buf : Nat → α
  dst : Nat
  src : Nat

/- Copy one value and move on by one, and by the stride. -/
def Cursor.step
    (read : Nat → α)
    (stride : Nat)
    (c : Cursor α) :
    Cursor α where
  buf := Function.update c.buf c.dst (read c.src)
  dst := c.dst + 1
  src := c.src + stride

/- Copy while neither the source nor the buffer ends. -/
def copyTo
    (read : Nat → α)
    (stride srcend limit : Nat)
    (c : Cursor α) :
    Cursor α :=
  if c.src < srcend ∧ c.dst < limit then
    copyTo read stride srcend limit (c.step read stride)
  else
    c
termination_by limit - c.dst
decreasing_by
  simp only [Cursor.step]
  omega

variable {read : Nat → α}
variable {stride srcend limit : Nat}
variable {c : Cursor α}

theorem copyTo_step
    (hSrc : c.src < srcend)
    (hDst : c.dst < limit) :
    copyTo read stride srcend limit c =
      copyTo read stride srcend limit (c.step read stride) := by
  conv_lhs => rw [copyTo]
  rw [if_pos ⟨hSrc, hDst⟩]

theorem copyTo_stop
    (hStop : ¬ (c.src < srcend ∧ c.dst < limit)) :
    copyTo read stride srcend limit c = c := by
  rw [copyTo, if_neg hStop]

/-
  A copy to a limit, resumed with a greater one, is the copy
  to the greater one, wherever the first came to a stop.
-/
theorem copyTo_resume
    {limit' : Nat}
    (hLimit : limit ≤ limit')
    (c : Cursor α) :
    copyTo read stride srcend limit'
        (copyTo read stride srcend limit c) =
      copyTo read stride srcend limit' c := by
  fun_induction copyTo read stride srcend limit c with
  | case1 c hGo ih =>
      rw [ih]
      exact (copyTo_step hGo.1 (by omega)).symm
  | case2 => rfl

------------------------------------------------------------
-- What A Copy Comes To
------------------------------------------------------------

/- A buffer with values `f 0`, `f 1`, … in place of `n`. -/
def blit
    (buf : Nat → α)
    (dst n : Nat)
    (f : Nat → α) :
    Nat → α :=
  fun i => if dst ≤ i ∧ i < dst + n then f (i - dst) else buf i

@[simp] theorem blit_zero
    (buf : Nat → α)
    (dst : Nat)
    (f : Nat → α) :
    blit buf dst 0 f = buf := by
  funext i
  exact if_neg (by omega)

/- One value more at the front. -/
theorem blit_update
    (buf : Nat → α)
    (dst n : Nat)
    (f : Nat → α) :
    blit (Function.update buf dst (f 0)) (dst + 1) n
        (fun i => f (i + 1)) =
      blit buf dst (n + 1) f := by
  funext i
  unfold blit
  rcases lt_trichotomy i dst with hLt | rfl | hGt
  · rw [if_neg (by omega), if_neg (by omega),
      Function.update_of_ne (by omega)]
  · rw [if_neg (by omega), if_pos (by omega),
      Function.update_self, Nat.sub_self]
  · rw [Function.update_of_ne (by omega)]
    by_cases hIn : i < dst + (n + 1)
    · have hNext : i - (dst + 1) + 1 = i - dst := by omega
      rw [if_pos (by omega), if_pos (by omega)]
      exact congrArg f hNext
    · rw [if_neg (by omega), if_neg (by omega)]

theorem blit_of_le
    (buf f : Nat → α)
    {dst n i : Nat}
    (hLe : dst + n ≤ i) :
    blit buf dst n f i = buf i :=
  if_neg (by omega)

theorem blit_of_lt
    (buf f : Nat → α)
    {dst n i : Nat}
    (hLt : i < dst) :
    blit buf dst n f i = buf i :=
  if_neg (by omega)

theorem blit_add
    (buf f : Nat → α)
    {dst n i : Nat}
    (hLt : i < n) :
    blit buf dst n f (dst + i) = f i := by
  unfold blit
  rw [if_pos (by omega), Nat.add_sub_cancel_left]

/-
  From unit `j` of `n` on, the copy takes the units left, or
  as many as there is room for.
-/
theorem copyTo_eq
    (read : Nat → α)
    (hStride : 0 < stride)
    (buf : Nat → α)
    (limit dst : Nat)
    {n j : Nat}
    (hLe : j ≤ n) :
    let m := min (n - j) (limit - dst)
    copyTo read stride (stride * n) limit ⟨buf, dst, stride * j⟩ =
      ⟨blit buf dst m (fun i => read (stride * (j + i))),
        dst + m, stride * (j + m)⟩ := by
  intro m
  induction hLeft : n - j generalizing buf dst j with
  | zero =>
      have hEq : j = n := by omega
      have hNone : m = 0 := by omega
      rw [copyTo_stop (by simp [hEq]), hNone]
      simp
  | succ left ih =>
      by_cases hRoom : dst < limit
      · have hSrc : stride * j < stride * n :=
          Nat.mul_lt_mul_of_pos_left (by omega) hStride
        have hNext : stride * j + stride = stride * (j + 1) :=
          (Nat.mul_succ stride j).symm
        have hMin :
            m = min (n - (j + 1)) (limit - (dst + 1)) + 1 := by
          omega
        have hBlit :=
          blit_update buf dst
            (min (n - (j + 1)) (limit - (dst + 1)))
            (fun i => read (stride * (j + i)))
        have hShift :
            (fun i => read (stride * (j + (i + 1)))) =
              fun i => read (stride * (j + 1 + i)) := by
          funext i
          rw [Nat.add_right_comm, Nat.add_assoc]
        rw [hShift] at hBlit
        rw [copyTo_step hSrc hRoom, Cursor.step]
        simp only [hNext]
        rw [ih _ (dst + 1) (by omega) (by omega), hMin, ← hBlit]
        simp only [Nat.add_zero, Cursor.mk.injEq, true_and]
        refine ⟨by omega, ?_⟩
        congr 1
        omega
      · have hNone : m = 0 := by omega
        rw [copyTo_stop (fun h => hRoom h.2), hNone]
        simp

end CopyLoop
