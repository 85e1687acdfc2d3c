import Mathlib.Tactic

/-
  Do-while loops.  A body either runs to the foot of the
  loop with a new state, or leaves with a result; at the
  foot a test decides whether the body runs again.

  Key definitions include:
    * `Iter`
    * `DoLoop`
    * `DoLoop.run` and `DoLoop.Ends`
    * `DoLoop.Head` and `DoLoop.Trace`

  Key theorems include:
    * `DoLoop.Head.invariant` and `DoLoop.Trace.invariant`
    * `DoLoop.ends_unique`
    * `DoLoop.ends_of_head`
    * `DoLoop.ends_of_measure`
    * `DoLoop.not_ends_of_invariant`
-/

/- What one execution of a loop body comes to. -/
inductive Iter (σ ρ : Type) where
| foot (s : σ)
| leave (r : ρ)

/- A body, the test at the foot, the result when it fails. -/
structure DoLoop (σ ρ : Type) where
  body : σ → Iter σ ρ
  test : σ → Bool
  done : σ → ρ

namespace DoLoop

variable {σ ρ : Type}

/- Execute the body at most `n` times. -/
def run (L : DoLoop σ ρ) : Nat → σ → Option ρ
| 0, _ => none
| n + 1, s =>
    match L.body s with
    | .foot s' =>
        if L.test s' then run L n s' else some (L.done s')
    | .leave r => some r

/- The loop entered with `s` ends with `r`. -/
def Ends
    (L : DoLoop σ ρ)
    (s : σ)
    (r : ρ) : Prop :=
  ∃ n, L.run n s = some r

/- The states at the head of the loop entered with `s₀`. -/
inductive Head (L : DoLoop σ ρ) (s₀ : σ) : σ → Prop where
| entry : Head L s₀ s₀
| again {s s' : σ} :
    Head L s₀ s →
    L.body s = .foot s' →
    L.test s' = true →
    Head L s₀ s'

/-
  The loop entered with `s₀` has executed its body on the
  states `hs`, first to last, and stands at `s`.
-/
inductive Trace
    (L : DoLoop σ ρ)
    (s₀ : σ) : List σ → σ → Prop where
| entry : Trace L s₀ [] s₀
| step {hs : List σ} {s s' : σ} :
    Trace L s₀ hs s →
    (hs ≠ [] → L.test s = true) →
    L.body s = .foot s' →
    Trace L s₀ (hs ++ [s]) s'

variable {L : DoLoop σ ρ}

/- What holds at entry and is kept by the body holds. -/
theorem Head.invariant
    {s₀ s : σ}
    (Inv : σ → Prop)
    (hHead : L.Head s₀ s)
    (hEntry : Inv s₀)
    (hBody :
      ∀ s s',
        L.Head s₀ s → Inv s →
          L.body s = .foot s' → Inv s') :
    Inv s := by
  induction hHead with
  | entry => exact hEntry
  | again hPrev hFoot _ ih => exact hBody _ _ hPrev ih hFoot

theorem Head.trans
    {s₀ s₁ s₂ : σ}
    (h₁ : L.Head s₀ s₁)
    (h₂ : L.Head s₁ s₂) :
    L.Head s₀ s₂ := by
  induction h₂ with
  | entry => exact h₁
  | again _ hFoot hTest ih => exact ih.again hFoot hTest

/- A loop that does not repeat has one head. -/
theorem Head.eq_entry
    {s₀ s : σ}
    (hHead : L.Head s₀ s)
    (hOnce :
      ∀ s', L.body s₀ = .foot s' → L.test s' = false) :
    s = s₀ := by
  induction hHead with
  | entry => rfl
  | again _ hFoot hTest ih =>
      rw [ih] at hFoot
      rw [hOnce _ hFoot] at hTest
      cases hTest

/- The states a trace has executed the body on are heads. -/
theorem Trace.head
    {s₀ s : σ}
    {hs : List σ}
    (hTrace : L.Trace s₀ hs s)
    (hGo : hs ≠ [] → L.test s = true) :
    L.Head s₀ s := by
  induction hTrace with
  | entry => exact Head.entry
  | step _ hPrev hBody ih =>
      exact (ih hPrev).again hBody (hGo (by simp))

theorem Trace.head_of_mem
    {s₀ s : σ}
    {hs : List σ}
    (hTrace : L.Trace s₀ hs s) :
    ∀ h ∈ hs, L.Head s₀ h := by
  induction hTrace with
  | entry => simp
  | step hPrev hGo _ ih =>
      intro h hMem
      rcases List.mem_append.mp hMem with hOld | hLast
      · exact ih h hOld
      · rw [List.mem_singleton.mp hLast]
        exact hPrev.head hGo

/- Every head is where some trace stands. -/
theorem Head.exists_trace
    {s₀ s : σ}
    (hHead : L.Head s₀ s) :
    ∃ hs, L.Trace s₀ hs s ∧ (hs ≠ [] → L.test s = true) := by
  induction hHead with
  | entry => exact ⟨[], Trace.entry, by simp⟩
  | again _ hFoot hTest ih =>
      rcases ih with ⟨hs, hTrace, hGo⟩
      exact ⟨_, hTrace.step hGo hFoot, fun _ => hTest⟩

/- A property kept by the body holds along a trace. -/
theorem Trace.invariant
    {s₀ s : σ}
    {hs : List σ}
    (Inv : List σ → σ → Prop)
    (hTrace : L.Trace s₀ hs s)
    (hEntry : Inv [] s₀)
    (hBody :
      ∀ hs s s',
        Inv hs s → L.body s = .foot s' →
          Inv (hs ++ [s]) s') :
    Inv hs s := by
  induction hTrace with
  | entry => exact hEntry
  | step _ _ hFoot ih => exact hBody _ _ _ ih hFoot

/- More iterations do not change a result. -/
theorem run_mono
    {n m : Nat}
    {s : σ}
    {r : ρ}
    (hLe : n ≤ m)
    (hRun : L.run n s = some r) :
    L.run m s = some r := by
  induction n generalizing m s with
  | zero => simp [run] at hRun
  | succ n ih =>
      obtain ⟨m, rfl⟩ : ∃ k, m = k + 1 :=
        ⟨m - 1, by omega⟩
      rw [run] at hRun ⊢
      cases hBody : L.body s with
      | foot s' =>
          simp only [hBody] at hRun ⊢
          by_cases hTest : L.test s' = true
          · rw [if_pos hTest] at hRun ⊢
            exact ih (by omega) hRun
          · rw [if_neg hTest] at hRun ⊢
            exact hRun
      | leave r' => simpa only [hBody] using hRun

/- A loop ends with one result only. -/
theorem ends_unique
    {s : σ}
    {r r' : ρ}
    (h : L.Ends s r)
    (h' : L.Ends s r') :
    r = r' := by
  rcases h with ⟨n, hn⟩
  rcases h' with ⟨m, hm⟩
  have hLeft := run_mono (Nat.le_max_left n m) hn
  have hRight := run_mono (Nat.le_max_right n m) hm
  exact Option.some.inj (hLeft.symm.trans hRight)

theorem ends_of_leave
    {s : σ}
    {r : ρ}
    (hBody : L.body s = .leave r) :
    L.Ends s r :=
  ⟨1, by simp [run, hBody]⟩

theorem ends_of_done
    {s s' : σ}
    (hBody : L.body s = .foot s')
    (hTest : L.test s' = false) :
    L.Ends s (L.done s') :=
  ⟨1, by simp [run, hBody, hTest]⟩

theorem ends_of_again
    {s s' : σ}
    {r : ρ}
    (hBody : L.body s = .foot s')
    (hTest : L.test s' = true)
    (hEnds : L.Ends s' r) :
    L.Ends s r := by
  rcases hEnds with ⟨n, hn⟩
  exact ⟨n + 1, by simpa [run, hBody, hTest] using hn⟩

/- The state in which the test fails, within `n` rounds. -/
def exit (L : DoLoop σ ρ) : Nat → σ → Option σ
| 0, _ => none
| n + 1, s =>
    match L.body s with
    | .foot s' => if L.test s' then exit L n s' else some s'
    | .leave _ => none

/- From there the result is known. -/
theorem ends_of_exit
    {n : Nat}
    {s t : σ}
    (hExit : L.exit n s = some t) :
    L.Ends s (L.done t) := by
  induction n generalizing s with
  | zero => cases hExit
  | succ n ih =>
      unfold exit at hExit
      cases hBody : L.body s with
      | leave r =>
          rw [hBody] at hExit
          cases hExit
      | foot s' =>
          rw [hBody] at hExit
          simp only at hExit
          cases hTest : L.test s' with
          | true =>
              rw [hTest, if_pos rfl] at hExit
              exact ends_of_again hBody hTest (ih hExit)
          | false =>
              rw [hTest, if_neg Bool.false_ne_true] at hExit
              obtain rfl := Option.some.inj hExit
              exact ends_of_done hBody hTest

/- The result of a loop is that of any head it comes to. -/
theorem ends_of_head
    {s₀ s : σ}
    {r : ρ}
    (hHead : L.Head s₀ s)
    (hEnds : L.Ends s r) :
    L.Ends s₀ r := by
  induction hHead with
  | entry => exact hEnds
  | again _ hFoot hTest ih =>
      exact ih (ends_of_again hFoot hTest hEnds)

/- A loop that ends does so from a head it comes to. -/
theorem exists_head_of_ends
    {s₀ : σ}
    {r : ρ}
    (hEnds : L.Ends s₀ r) :
    ∃ s, L.Head s₀ s ∧
      (L.body s = .leave r ∨
        ∃ s', L.body s = .foot s' ∧ L.test s' = false ∧
          r = L.done s') := by
  rcases hEnds with ⟨n, hn⟩
  induction n generalizing s₀ with
  | zero => simp [run] at hn
  | succ n ih =>
      rw [run] at hn
      cases hBody : L.body s₀ with
      | foot s' =>
          simp only [hBody] at hn
          by_cases hTest : L.test s' = true
          · rw [if_pos hTest] at hn
            rcases ih hn with ⟨s, hHead, hLast⟩
            exact
              ⟨s, (Head.entry.again hBody hTest).trans hHead,
                hLast⟩
          · rw [if_neg hTest] at hn
            refine ⟨s₀, Head.entry, Or.inr ⟨s', hBody, ?_, ?_⟩⟩
            · simpa using hTest
            · exact (Option.some.inj hn).symm
      | leave r' =>
          simp only [hBody, Option.some.injEq] at hn
          subst hn
          exact ⟨s₀, Head.entry, Or.inl hBody⟩

/- A loop whose measure falls whenever it repeats ends. -/
theorem ends_of_measure
    {s₀ : σ}
    (μ : σ → Nat)
    (hFalls :
      ∀ s s',
        L.Head s₀ s → L.body s = .foot s' →
          L.test s' = true → μ s' < μ s) :
    ∃ r, L.Ends s₀ r := by
  have hAll :
      ∀ n s, L.Head s₀ s → μ s < n → ∃ r, L.Ends s r := by
    intro n
    induction n with
    | zero => intro s _ hLt; omega
    | succ n ih =>
        intro s hHead hLt
        cases hBody : L.body s with
        | foot s' =>
            cases hTest : L.test s' with
            | true =>
                have hFall := hFalls s s' hHead hBody hTest
                rcases ih s' (hHead.again hBody hTest)
                    (by omega) with ⟨r, hEnds⟩
                exact ⟨r, ends_of_again hBody hTest hEnds⟩
            | false => exact ⟨_, ends_of_done hBody hTest⟩
        | leave r => exact ⟨r, ends_of_leave hBody⟩
  exact hAll (μ s₀ + 1) s₀ Head.entry (by omega)

/- A loop kept where its test succeeds does not end. -/
theorem not_ends_of_invariant
    {s₀ : σ}
    (Inv : σ → Prop)
    (hEntry : Inv s₀)
    (hStep :
      ∀ s, Inv s →
        ∃ s', L.body s = .foot s' ∧ L.test s' = true ∧ Inv s')
    (r : ρ) :
    ¬ L.Ends s₀ r := by
  rintro ⟨n, hn⟩
  induction n generalizing s₀ with
  | zero => simp [run] at hn
  | succ n ih =>
      rcases hStep s₀ hEntry with ⟨s', hBody, hTest, hInv⟩
      rw [run] at hn
      simp only [hBody, hTest, if_true] at hn
      exact ih hInv hn

end DoLoop
