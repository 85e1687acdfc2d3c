import Mathlib.Data.List.Chain
import Mathlib.Data.List.Forall2
import Mathlib.Tactic.Ring

/-
  Lists cut in blocks: the first break of a chain, the blocks
  of a `flatMap` by position, and the part before a separator.

  Key theorems include:
    * `Blocks.exists_first_break`
    * `Blocks.isChain_of_forall₂`
    * `Blocks.getElem?_flatMap_block`
    * `Blocks.take_drop_flatten`
    * `Blocks.take_drop_at`
    * `Blocks.exists_block_of_lt`
    * `Blocks.append_cons_inj`
-/

------------------------------------------------------------
-- Chains
------------------------------------------------------------

namespace Blocks

variable {α β : Type}

/- A list that is no chain is one up to its first break. -/
theorem exists_first_break
    {R : α → α → Prop}
    {l : List α}
    (hBreak : ¬ l.IsChain R) :
    ∃ pre a b post, l = pre ++ a :: b :: post ∧
      (pre ++ [a]).IsChain R ∧ ¬ R a b := by
  induction l with
  | nil => exact (hBreak List.IsChain.nil).elim
  | cons x xs ih =>
      cases xs with
      | nil => exact (hBreak (List.IsChain.singleton x)).elim
      | cons y ys =>
          by_cases hxy : R x y
          · have hRest : ¬ (y :: ys).IsChain R := by
              intro hChain
              exact hBreak (List.isChain_cons_cons.mpr ⟨hxy, hChain⟩)
            rcases ih hRest with ⟨pre, a, b, post, hEq, hPre, hab⟩
            refine ⟨x :: pre, a, b, post, by rw [hEq]; rfl, ?_, hab⟩
            cases pre with
            | nil =>
                obtain rfl : y = a := (List.cons.inj hEq).1
                exact List.isChain_pair.mpr hxy
            | cons c pre =>
                obtain rfl : y = c := (List.cons.inj hEq).1
                exact List.isChain_cons_cons.mpr ⟨hxy, hPre⟩
          · exact ⟨[], x, y, ys, rfl, List.IsChain.singleton x, hxy⟩

/- Relations that `E` respects carry chains over. -/
theorem isChain_of_forall₂
    {R : α → α → Prop}
    {S : β → β → Prop}
    {E : α → β → Prop}
    (hStep : ∀ a b c d, E a c → E b d → R a b → S c d)
    {xs : List α}
    {ys : List β}
    (hSame : List.Forall₂ E xs ys)
    (hChain : xs.IsChain R) :
    ys.IsChain S := by
  induction hSame with
  | nil => exact List.IsChain.nil
  | @cons a c xs ys hac hRest ih =>
      cases hRest with
      | nil => exact List.IsChain.singleton c
      | @cons b d xs ys hbd hRest =>
          have hSplit := List.isChain_cons_cons.mp hChain
          exact List.isChain_cons_cons.mpr
            ⟨hStep a b c d hac hbd hSplit.1, ih hSplit.2⟩

------------------------------------------------------------
-- Maps
------------------------------------------------------------

/- Two maps in one, by the values and not by composition. -/
theorem map_map_of_eq
    {γ : Type}
    {f : β → γ}
    {g : α → β}
    {h : α → γ}
    (hEq : ∀ a, f (g a) = h a)
    (l : List α) :
    (l.map g).map f = l.map h := by
  rw [List.map_map]
  exact List.map_congr_left (fun a _ => hEq a)

------------------------------------------------------------
-- Blocks Of A Flat Map
------------------------------------------------------------

/- Inside the block of `a`. -/
theorem getElem?_flatMap_block
    (f : α → List β)
    (pre : List α)
    (a : α)
    (post : List α)
    {j : Nat}
    (hLt : j < (f a).length) :
    ((pre ++ a :: post).flatMap f)[(pre.flatMap f).length + j]? =
      (f a)[j]? := by
  rw [List.flatMap_append, List.getElem?_append_right (by omega),
    Nat.add_sub_cancel_left, List.flatMap_cons,
    List.getElem?_append_left hLt]

/- Every position lies in some block. -/
theorem exists_block_of_lt
    (f : α → List β)
    {l : List α}
    {x : Nat}
    (hLt : x < (l.flatMap f).length) :
    ∃ pre a post j, l = pre ++ a :: post ∧ j < (f a).length ∧
      x = (pre.flatMap f).length + j := by
  induction l generalizing x with
  | nil => exact (Nat.not_lt_zero x hLt).elim
  | cons a l ih =>
      by_cases hHere : x < (f a).length
      · exact ⟨[], a, l, x, rfl, hHere, (Nat.zero_add x).symm⟩
      · rw [List.flatMap_cons, List.length_append] at hLt
        have hRest : x - (f a).length < (l.flatMap f).length := by
          omega
        rcases ih hRest with ⟨pre, b, post, j, rfl, hj, hEq⟩
        refine ⟨a :: pre, b, post, j, rfl, hj, ?_⟩
        rw [List.flatMap_cons, List.length_append]
        omega

------------------------------------------------------------
-- Blocks Of One Length
------------------------------------------------------------

/- The blocks of a flattened list by their number. -/
theorem take_drop_flatten
    {n : Nat}
    {xss : List (List α)}
    (hLen : ∀ xs ∈ xss, xs.length = n)
    {i : Nat}
    (hLt : i < xss.length) :
    (xss.flatten.drop (n * i)).take n = xss[i] := by
  induction xss generalizing i with
  | nil => exact (Nat.not_lt_zero i hLt).elim
  | cons xs xss ih =>
      have hFirst : xs.length = n := hLen xs List.mem_cons_self
      cases i with
      | zero => simp [← hFirst]
      | succ i =>
          have hRest := ih
            (fun ys hys => hLen ys (List.mem_cons_of_mem xs hys))
            (Nat.lt_of_succ_lt_succ hLt)
          have hSkip : n * (i + 1) = xs.length + n * i := by
            rw [hFirst]
            ring
          rw [List.flatten_cons, hSkip, List.drop_append,
            List.drop_eq_nil_of_le (Nat.le_add_right _ _),
            List.nil_append, Nat.add_sub_cancel_left, hRest]
          rfl

theorem getElem_flatten
    {n : Nat}
    {xss : List (List α)}
    (hLen : ∀ xs ∈ xss, xs.length = n)
    {i j : Nat}
    (hi : i < xss.length)
    (hj : j < n) :
    xss.flatten[n * i + j]? = xss[i][j]? := by
  rw [← take_drop_flatten hLen hi, List.getElem?_take_of_lt hj,
    List.getElem?_drop]

theorem length_flatten
    {n : Nat}
    {xss : List (List α)}
    (hLen : ∀ xs ∈ xss, xs.length = n) :
    xss.flatten.length = n * xss.length := by
  rw [List.length_flatten, List.map_congr_left hLen]
  simp [Nat.mul_comm]

------------------------------------------------------------
-- Blocks Of Given Lengths
------------------------------------------------------------

/- A block starts where the lengths in front of it say. -/
theorem take_drop_at
    {xss : List (List α)}
    {ws : List Nat}
    (hWidths : xss.map List.length = ws)
    {i : Nat}
    {xs : List α}
    (hAt : xss[i]? = some xs)
    {offset w : Nat}
    (hOffset : (ws.take i).sum = offset)
    (hWidth : xs.length = w)
    (rest : List α) :
    ((xss.flatten ++ rest).drop offset).take w = xs := by
  rcases List.getElem?_eq_some_iff.mp hAt with ⟨hLt, rfl⟩
  have hSplit : xss = xss.take i ++ xss[i] :: xss.drop (i + 1) := by
    rw [← List.drop_eq_getElem_cons hLt, List.take_append_drop]
  have hFront : (xss.take i).flatten.length = offset := by
    rw [List.length_flatten, ← hOffset, ← hWidths, List.map_take]
  have hFlat :
      xss.flatten ++ rest =
        (xss.take i).flatten ++
          (xss[i] ++ ((xss.drop (i + 1)).flatten ++ rest)) := by
    conv_lhs => rw [hSplit]
    rw [List.flatten_append, List.flatten_cons,
      List.append_assoc, List.append_assoc]
  rw [hFlat, List.drop_left' hFront, List.take_left' hWidth]

------------------------------------------------------------
-- Separators
------------------------------------------------------------

/-
  A separator cuts a list in one way only, once it is known
  how many more of it stand before the cut.
-/
theorem append_cons_inj
    [DecidableEq α]
    {sep : α}
    {a a' b b' : List α}
    (hCount : a.count sep = a'.count sep)
    (hEq : a ++ sep :: b = a' ++ sep :: b') :
    a = a' ∧ b = b' := by
  induction a generalizing a' with
  | nil =>
      cases a' with
      | nil => exact ⟨rfl, (List.cons.inj hEq).2⟩
      | cons x xs =>
          obtain rfl : sep = x := (List.cons.inj hEq).1
          simp at hCount
  | cons y ys ih =>
      cases a' with
      | nil =>
          obtain rfl : y = sep := (List.cons.inj hEq).1
          simp at hCount
      | cons x xs =>
          obtain ⟨rfl, hTail⟩ := List.cons.inj hEq
          rw [List.count_cons, List.count_cons,
            Nat.add_right_cancel_iff] at hCount
          rcases ih hCount hTail with ⟨rfl, rfl⟩
          exact ⟨rfl, rfl⟩

end Blocks
