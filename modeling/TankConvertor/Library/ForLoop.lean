import Mathlib.Data.List.Basic
import Mathlib.Data.List.Forall2

/-
  A `for` loop over a list whose body may fail: `foldlM` in
  `Option`, and the rules to reason about its iterations.

  Key definitions include:
    * `ForLoop.Along`
    * `ForLoop.Keeps`

  Key theorems include:
    * `ForLoop.keeps_iff_along`
    * `ForLoop.keeps_foldlM`
    * `ForLoop.foldlM_prefix` and `ForLoop.keeps_of_prefix`
    * `ForLoop.foldlM_snoc`
    * `ForLoop.foldlM_mono`
    * `ForLoop.foldlM_congr`
    * `ForLoop.foldlM_rel`
-/

------------------------------------------------------------
-- Iterations
------------------------------------------------------------

namespace ForLoop

variable {σ α : Type}

/- Every iteration of the loop starts as `C` asks. -/
def Along
    (f : σ → α → Option σ)
    (C : σ → α → Prop) :
    σ → List α → Prop
| _, [] => True
| s, x :: xs =>
    C s x ∧ ∀ s', f s x = some s' → Along f C s' xs

/- Every iteration ends, in a state with `I`. -/
def Keeps
    (f : σ → α → Option σ)
    (I : σ → Prop) :
    σ → List α → Prop
| _, [] => True
| s, x :: xs =>
    ∃ s', f s x = some s' ∧ I s' ∧ Keeps f I s' xs

/-
  When `C` says exactly which iterations preserve `I`, it
  says exactly which loops do.
-/
theorem keeps_iff_along
    {f : σ → α → Option σ}
    {C : σ → α → Prop}
    {I : σ → Prop}
    {P : α → Prop}
    (hStep :
      ∀ s x, I s → P x →
        ((∃ s', f s x = some s' ∧ I s') ↔ C s x))
    {s : σ}
    {xs : List α}
    (hInit : I s)
    (hAll : ∀ x ∈ xs, P x) :
    Keeps f I s xs ↔ Along f C s xs := by
  induction xs generalizing s with
  | nil => exact Iff.rfl
  | cons x xs ih =>
      have hx : P x := hAll x List.mem_cons_self
      have hxs : ∀ y ∈ xs, P y :=
        fun y hy => hAll y (List.mem_cons_of_mem _ hy)
      constructor
      · rintro ⟨s', hf, hI, hRest⟩
        refine ⟨(hStep s x hInit hx).mp ⟨s', hf, hI⟩, ?_⟩
        intro t ht
        obtain rfl : s' = t := Option.some.inj (hf.symm.trans ht)
        exact (ih hI hxs).mp hRest
      · rintro ⟨hC, hRest⟩
        rcases (hStep s x hInit hx).mpr hC with ⟨s', hf, hI⟩
        exact ⟨s', hf, hI, (ih hI hxs).mpr (hRest s' hf)⟩

/- What `C` gives while `I` holds, all iterations have. -/
theorem along_of_keeps
    {f : σ → α → Option σ}
    {C D : σ → α → Prop}
    {I : σ → Prop}
    {P : α → Prop}
    (hStep : ∀ s x, I s → P x → C s x → D s x)
    {s : σ}
    {xs : List α}
    (hInit : I s)
    (hAll : ∀ x ∈ xs, P x)
    (hKeeps : Keeps f I s xs)
    (hAlong : Along f C s xs) :
    Along f D s xs := by
  induction xs generalizing s with
  | nil => trivial
  | cons x xs ih =>
      rcases hKeeps with ⟨t, hf, hI, hRest⟩
      have hx : P x := hAll x List.mem_cons_self
      refine ⟨hStep s x hInit hx hAlong.1, ?_⟩
      intro s' hs'
      obtain rfl : t = s' := Option.some.inj (hf.symm.trans hs')
      exact ih hI (fun y hy => hAll y (List.mem_cons_of_mem _ hy))
        hRest (hAlong.2 t hs')

/- A loop whose iterations keep `I` ends, and with `I`. -/
theorem keeps_foldlM
    {f : σ → α → Option σ}
    {I : σ → Prop}
    {s : σ}
    {xs : List α}
    (hInit : I s)
    (hKeeps : Keeps f I s xs) :
    ∃ s', xs.foldlM f s = some s' ∧ I s' := by
  induction xs generalizing s with
  | nil => exact ⟨s, rfl, hInit⟩
  | cons x xs ih =>
      rcases hKeeps with ⟨s', hf, hI, hRest⟩
      rcases ih hI hRest with ⟨t, ht, hIt⟩
      refine ⟨t, ?_, hIt⟩
      rw [List.foldlM_cons, hf]
      exact ht

------------------------------------------------------------
-- Whole Loops
------------------------------------------------------------

/-
  The loop, related step by step to the elements that it has
  gone through; it ends where every iteration does.
-/
theorem foldlM_prefix
    {f : σ → α → Option σ}
    (R : List α → σ → Prop)
    (xs : List α)
    {s : σ}
    (hInit : R [] s)
    (hStep :
      ∀ pre x post s, pre ++ x :: post = xs → R pre s →
        ∃ s', f s x = some s' ∧ R (pre ++ [x]) s') :
    ∃ s', xs.foldlM f s = some s' ∧ R xs s' := by
  have hGo :
      ∀ post pre s, pre ++ post = xs → R pre s →
        ∃ s', post.foldlM f s = some s' ∧ R xs s' := by
    intro post
    induction post with
    | nil =>
        intro pre s hSplit hR
        rw [List.append_nil] at hSplit
        exact ⟨s, rfl, hSplit ▸ hR⟩
    | cons x post ih =>
        intro pre s hSplit hR
        rcases hStep pre x post s hSplit hR with ⟨s', hf, hR'⟩
        have hSplit' : (pre ++ [x]) ++ post = xs := by
          rw [List.append_assoc]
          exact hSplit
        rcases ih (pre ++ [x]) s' hSplit' hR' with ⟨t, ht, hRt⟩
        refine ⟨t, ?_, hRt⟩
        rw [List.foldlM_cons, hf]
        exact ht
  exact hGo xs [] s rfl hInit

/- What the relation gives at every point, iterations keep. -/
theorem keeps_of_prefix
    {f : σ → α → Option σ}
    {I : σ → Prop}
    (R : List α → σ → Prop)
    (xs : List α)
    {s : σ}
    (hInit : R [] s)
    (hStep :
      ∀ pre x post s, pre ++ x :: post = xs → R pre s →
        ∃ s', f s x = some s' ∧ R (pre ++ [x]) s')
    (hGive : ∀ pre post s, pre ++ post = xs → R pre s → I s) :
    Keeps f I s xs := by
  have hGo :
      ∀ post pre s, pre ++ post = xs → R pre s →
        Keeps f I s post := by
    intro post
    induction post with
    | nil =>
        intro pre s _ _
        trivial
    | cons x post ih =>
        intro pre s hSplit hR
        rcases hStep pre x post s hSplit hR with ⟨s', hf, hR'⟩
        have hSplit' : (pre ++ [x]) ++ post = xs := by
          rw [List.append_assoc]
          exact hSplit
        exact ⟨s', hf, hGive (pre ++ [x]) post s' hSplit' hR',
          ih (pre ++ [x]) s' hSplit' hR'⟩
  exact hGo xs [] s rfl hInit

/- A loop that ends has gone through its first iteration. -/
theorem foldlM_cons_eq_some
    {f : σ → α → Option σ}
    {x : α}
    {xs : List α}
    {s s' : σ} :
    (x :: xs).foldlM f s = some s' ↔
      ∃ t, f s x = some t ∧ xs.foldlM f t = some s' := by
  rw [List.foldlM_cons]
  exact Option.bind_eq_some_iff

/- And through its first part. -/
theorem foldlM_append_eq_some
    {f : σ → α → Option σ}
    {xs ys : List α}
    {s s' : σ} :
    (xs ++ ys).foldlM f s = some s' ↔
      ∃ t, xs.foldlM f s = some t ∧ ys.foldlM f t = some s' := by
  rw [List.foldlM_append]
  exact Option.bind_eq_some_iff

/- One more iteration of a loop that has ended. -/
theorem foldlM_snoc
    {f : σ → α → Option σ}
    {xs : List α}
    {x : α}
    {s t : σ}
    (hRun : xs.foldlM f s = some t) :
    (xs ++ [x]).foldlM f s = f t x := by
  rw [List.foldlM_append, hRun]
  change [x].foldlM f t = f t x
  rw [List.foldlM_cons]
  cases f t x <;> rfl

/- The same of a loop that is known to end. -/
theorem foldlM_prefix_of_some
    {f : σ → α → Option σ}
    (R : List α → σ → Prop)
    (xs : List α)
    {s s' : σ}
    (hInit : R [] s)
    (hStep :
      ∀ pre x post s s', pre ++ x :: post = xs → R pre s →
        f s x = some s' → R (pre ++ [x]) s')
    (hRun : xs.foldlM f s = some s') :
    R xs s' := by
  have hGo :
      ∀ post pre s, pre ++ post = xs → R pre s →
        post.foldlM f s = some s' → R xs s' := by
    intro post
    induction post with
    | nil =>
        intro pre s hSplit hR hRun
        rw [List.append_nil] at hSplit
        obtain rfl : s = s' := Option.some.inj hRun
        exact hSplit ▸ hR
    | cons x post ih =>
        intro pre s hSplit hR hRun
        have hSplit' : (pre ++ [x]) ++ post = xs := by
          rw [List.append_assoc]
          exact hSplit
        rcases foldlM_cons_eq_some.mp hRun with ⟨t, hf, hRest⟩
        exact ih (pre ++ [x]) t hSplit'
          (hStep pre x post s t hSplit hR hf) hRest
  exact hGo xs [] s rfl hInit hRun

/- What every iteration relates, the loop relates. -/
theorem foldlM_mono
    {f : σ → α → Option σ}
    {R : σ → σ → Prop}
    (hRefl : ∀ s, R s s)
    (hTrans : ∀ s t u, R s t → R t u → R s u)
    (hStep : ∀ s x s', f s x = some s' → R s s')
    {s s' : σ}
    {xs : List α}
    (hRun : xs.foldlM f s = some s') :
    R s s' := by
  induction xs generalizing s with
  | nil =>
      obtain rfl : s = s' := Option.some.inj hRun
      exact hRefl s
  | cons x xs ih =>
      rcases foldlM_cons_eq_some.mp hRun with ⟨t, hf, hRest⟩
      exact hTrans s t s' (hStep s x t hf) (ih hRest)

/-
  Two loops with the same invariant whose bodies cannot tell
  their elements apart.
-/
theorem foldlM_congr
    {f g : σ → α → Option σ}
    {I : σ → Prop}
    {E : α → α → Prop}
    (hBody : ∀ s x y, I s → E x y → f s x = g s y)
    (hKeep : ∀ s x y s', I s → E x y → f s x = some s' → I s')
    {s : σ}
    {xs ys : List α}
    (hInit : I s)
    (hSame : List.Forall₂ E xs ys) :
    xs.foldlM f s = ys.foldlM g s := by
  induction hSame generalizing s with
  | nil => rfl
  | @cons x y xs ys hxy _ ih =>
      rw [List.foldlM_cons, List.foldlM_cons,
        ← hBody s x y hInit hxy]
      cases hf : f s x with
      | none => rfl
      | some t => exact ih (hKeep s x y t hInit hxy hf)

------------------------------------------------------------
-- Two Runs
------------------------------------------------------------

variable {E : σ → σ → Prop}

/- Related iterations, and related loops after them. -/
theorem foldlM_cons_rel
    {f : σ → α → Option σ}
    {s t : σ}
    {x : α}
    {xs : List α}
    (hStep : Option.Rel E (f s x) (f t x))
    (hRest :
      ∀ u v, E u v →
        Option.Rel E (xs.foldlM f u) (xs.foldlM f v)) :
    Option.Rel E ((x :: xs).foldlM f s)
      ((x :: xs).foldlM f t) := by
  rw [List.foldlM_cons, List.foldlM_cons]
  cases hs : f s x with
  | none =>
      rw [hs] at hStep
      cases ht : f t x with
      | none => exact .none
      | some v =>
          rw [ht] at hStep
          cases hStep
  | some u =>
      rw [hs] at hStep
      cases ht : f t x with
      | none =>
          rw [ht] at hStep
          cases hStep
      | some v =>
          rw [ht] at hStep
          cases hStep with
          | some hUv => exact hRest u v hUv

end ForLoop
