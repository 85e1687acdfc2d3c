import TankConvertor.Argv.Grammar
import TankConvertor.Sac.Codes
import TankConvertor.Sac.Model

/-
  The paths of the output: `sacproc_outpath_gen`,
  `msproc_outpath_gen` and the name of a SAC file, against
  the buffers of `MAX_PATH_LENGTH` bytes they are written to.

  The value of `-o` is cut to its buffer, but what is put
  together from it, or from the name of the input file, is
  not measured.

  Key definitions include:
    * `sacprocOutpathGen` and `msprocOutpathGen`
    * `PathsFit`
    * `PathsShort`

  Key theorems include:
    * `length_sacprocOutpathGen`
    * `length_sacPath`
    * `paths_fit_iff`
-/

------------------------------------------------------------
-- The Generators
------------------------------------------------------------

namespace TankConvertor

/- What follows the last `/`, or all of the name. -/
def baseName (inputfile : List UInt8) : List UInt8 :=
  ((cstr inputfile).reverse.takeWhile
    (fun b => b ≠ ch '/')).reverse

/- Dots become underscores. -/
def undot (bs : List UInt8) : List UInt8 :=
  bs.map (fun b => if b = ch '.' then ch '_' else b)

/-
  The string in `result`; making the directory has no part
  in it.
-/
def sacprocOutpathGen
    (inputfile outpath : List UInt8) :
    List UInt8 :=
  if (cstr outpath).length = 0 then
    ['.', '/'].map ch ++
      undot (baseName inputfile ++ ['_', 'S', 'A', 'C'].map ch)
  else
    cstr outpath

def msprocOutpathGen
    (inputfile outpath : List UInt8) :
    List UInt8 :=
  if (cstr outpath).length = 0 then
    ['.', '/'].map ch ++ undot (baseName inputfile) ++
      ['.', 'm', 's', 'e', 'e', 'd'].map ch
  else
    cstr outpath

------------------------------------------------------------
-- Lengths
------------------------------------------------------------

theorem length_sacprocOutpathGen
    (inputfile outpath : List UInt8) :
    (sacprocOutpathGen inputfile outpath).length =
      if cstr outpath = [] then (baseName inputfile).length + 6
      else (cstr outpath).length := by
  unfold sacprocOutpathGen
  simp only [List.length_eq_zero_iff]
  split
  · simp [undot]
  · rfl

theorem length_msprocOutpathGen
    (inputfile outpath : List UInt8) :
    (msprocOutpathGen inputfile outpath).length =
      if cstr outpath = [] then (baseName inputfile).length + 8
      else (cstr outpath).length := by
  unfold msprocOutpathGen
  simp only [List.length_eq_zero_iff]
  split
  · simp [undot]
  · rfl

/- A generated path is a string as it stands. -/
theorem cstr_sacprocOutpathGen
    (inputfile outpath : List UInt8) :
    cstr (sacprocOutpathGen inputfile outpath) =
      sacprocOutpathGen inputfile outpath := by
  have hBase : (0 : UInt8) ∉ baseName inputfile := by
    intro hMem
    have hName := (List.takeWhile_sublist _).subset
      (List.mem_reverse.mp hMem)
    exact zero_not_mem_cstr inputfile (List.mem_reverse.mp hName)
  apply cstr_of_not_mem
  unfold sacprocOutpathGen
  split
  · intro hMem
    rcases List.mem_append.mp hMem with hHead | hTail
    · revert hHead
      decide
    · rcases List.mem_map.mp hTail with ⟨b, hb, hEq⟩
      split at hEq
      · revert hEq
        decide
      · subst hEq
        rcases List.mem_append.mp hb with hName | hEnd
        · exact hBase hName
        · revert hEnd
          decide
  · exact zero_not_mem_cstr outpath

/- The bytes of the four codes. -/
def TraceNode.codeLength (n : TraceNode) : Nat :=
  (cstr n.sta).length + (cstr n.chan).length +
    (cstr n.net).length + (cstr n.loc).length

theorem length_sacPath
    (outpath : List UInt8)
    {n : TraceNode}
    (hTerm : n.Terminated) :
    (sacPath outpath n).length =
      (cstr outpath).length + n.codeLength + 8 := by
  rcases hTerm.strings with ⟨hSta, hChan, hNet, hLoc⟩
  unfold sacPath TraceNode.codeLength
  rw [hSta, hChan, hNet, hLoc]
  simp only [List.length_append, List.length_cons,
    List.length_nil, List.length_map]
  omega

------------------------------------------------------------
-- The Buffers
------------------------------------------------------------

/- Each of the three strings fits, terminator included. -/
structure PathsFit
    (inputfile outpath : List UInt8)
    (n : TraceNode) : Prop where
  sacDir :
    (sacprocOutpathGen inputfile outpath).length + 1 ≤
      maxPathLength
  mseed :
    (msprocOutpathGen inputfile outpath).length + 1 ≤
      maxPathLength
  sacFile :
    (sacPath (sacprocOutpathGen inputfile outpath) n).length +
        1 ≤
      maxPathLength

/-
  The last value of `-o`, or the base name of the input file
  where there is none, leaves room for the codes.
-/
def PathsShort
    (out : Option Arg)
    (final : Arg)
    (n : TraceNode) : Prop :=
  if out.elim [] cstr = [] then
    (baseName final).length + n.codeLength ≤ 241
  else
    (out.elim [] cstr).length + n.codeLength ≤ 247

instance
    (out : Option Arg)
    (final : Arg)
    (n : TraceNode) :
    Decidable (PathsShort out final n) := by
  unfold PathsShort
  infer_instance

theorem pathsFit_iff
    {outpath : List UInt8}
    {out : Option Arg}
    (hOut :
      cstr outpath =
        (out.elim [] cstr).take (maxPathLength - 1))
    (final : Arg)
    {n : TraceNode}
    (hTerm : n.Terminated) :
    PathsFit final outpath n ↔ PathsShort out final n := by
  have hDir := length_sacprocOutpathGen final outpath
  have hMseed := length_msprocOutpathGen final outpath
  have hFile :=
    length_sacPath (sacprocOutpathGen final outpath) hTerm
  have hMax : maxPathLength = 256 := rfl
  rw [cstr_sacprocOutpathGen] at hFile
  by_cases hNone : out.elim [] cstr = []
  · have hEmpty : cstr outpath = [] := by
      rw [hOut, hNone, List.take_nil]
    rw [if_pos hEmpty] at hDir hMseed
    rw [PathsShort, if_pos hNone]
    constructor
    · intro hFit
      have hLast := hFit.sacFile
      omega
    · intro hShort
      exact ⟨by omega, by omega, by omega⟩
  · have hSome : cstr outpath ≠ [] := by
      rw [hOut, ne_eq, List.take_eq_nil_iff, not_or]
      exact ⟨by decide, hNone⟩
    have hLen :
        (cstr outpath).length =
          min 255 (out.elim [] cstr).length := by
      rw [hOut, List.length_take]
      rfl
    rw [if_neg hSome] at hDir hMseed
    rw [PathsShort, if_neg hNone]
    constructor
    · intro hFit
      have hLast := hFit.sacFile
      omega
    · intro hShort
      exact ⟨by omega, by omega, by omega⟩

/- A call that returns has met neither `-v` nor `-h`. -/
theorem plainOptions_of_ret
    {argv : List Arg}
    {code : Int}
    {s : ArgState}
    (hRet : procArgv argv = .ret code s) :
    PlainOptions argv.tail := by
  intro pairs arg rest hEq
  rw [procArgv, hEq, argLoop_pairs, argLoop.eq_def] at hRet
  simp only [strcmp_optV, strcmp_optH] at hRet
  constructor
  · intro hV
    rw [if_pos hV] at hRet
    cases hRet
  · intro hH
    rw [if_pos hH] at hRet
    split at hRet <;> cases hRet

/-
  The paths of an accepted call fit their buffers exactly
  when its arguments leave room for the codes.
-/
theorem paths_fit_iff
    {argv : List Arg}
    {s : ArgState}
    (hRet : procArgv argv = .ret 0 s) :
    (∃ pairs final format,
        Grammar argv.tail pairs final format) ∧
      ∀ pairs final format,
        Grammar argv.tail pairs final format →
          s.inputFile = some final ∧
            ∀ n : TraceNode, n.Terminated →
              (PathsFit final s.outPath n ↔
                PathsShort (lastValue optO pairs) final n) := by
  have hPlain := plainOptions_of_ret hRet
  refine ⟨grammar_of_procArgv hPlain hRet, ?_⟩
  intro pairs final format hGrammar
  rcases procArgv_of_grammar hPlain hGrammar with
    ⟨t, hAfter, hRet'⟩
  rw [hRet'] at hRet
  cases hRet
  exact ⟨rfl, fun n hTerm =>
    pathsFit_iff hAfter.outPath final hTerm⟩

/- A node with codes of three, three, two and two bytes. -/
def pathNode : TraceNode :=
  nodeOfNet ([ch 'T', ch 'W'] ++ List.replicate 7 0)

theorem pathNode_terminated : pathNode.Terminated :=
  ⟨by decide, by decide, by decide, by decide⟩

/- `tbconvert -o out a`. -/
theorem paths_fit_short :
    ∃ s,
      procArgv [[ch 't'], optO, ['o', 'u', 't'].map ch, [ch 'a']] =
          .ret 0 s ∧
        PathsFit [ch 'a'] s.outPath pathNode := by
  let pair : OptPair :=
    ⟨optO, ['o', 'u', 't'].map ch, Or.inr (by decide)⟩
  have hGrammar :
      Grammar [optO, ['o', 'u', 't'].map ch, [ch 'a']] [pair]
        [ch 'a'] .sac :=
    ⟨rfl, by decide, by decide⟩
  have hPlain :
      PlainOptions
        ([[ch 't'], optO, ['o', 'u', 't'].map ch,
          [ch 'a']] : List Arg).tail :=
    plainOptions_of_forall (by decide)
  rcases procArgv_of_grammar hPlain hGrammar with
    ⟨t, _, hRet⟩
  refine ⟨_, hRet, ?_⟩
  have hFit := ((paths_fit_iff hRet).2 _ _ _ hGrammar).2
  exact (hFit pathNode pathNode_terminated).mpr (by decide)

/-
  An input file with a name of 250 bytes: its directory for
  SAC files takes 257 with the terminator.
-/
theorem long_name_not_fit :
    ∃ s,
      procArgv [[ch 't'], List.replicate 250 (ch 'a')] =
          .ret 0 s ∧
        s.inputFile = some (List.replicate 250 (ch 'a')) ∧
        (baseName (List.replicate 250 (ch 'a'))).length ≤ 255 ∧
        (sacprocOutpathGen (List.replicate 250 (ch 'a'))
            s.outPath).length + 1 = 257 ∧
        pathNode.Terminated ∧
        ¬ PathsFit (List.replicate 250 (ch 'a')) s.outPath
          pathNode := by
  have hGrammar :
      Grammar [List.replicate 250 (ch 'a')] []
        (List.replicate 250 (ch 'a')) .sac :=
    ⟨rfl, by decide, by decide⟩
  have hBase :
      (baseName (List.replicate 250 (ch 'a'))).length = 250 := by
    decide +kernel
  have hPlain :
      PlainOptions
        ([[ch 't'], List.replicate 250 (ch 'a')] :
          List Arg).tail :=
    plainOptions_of_forall (by decide)
  rcases procArgv_of_grammar hPlain hGrammar with
    ⟨t, hAfter, hRet⟩
  have hEmpty : cstr t.outPath = [] := by
    rw [hAfter.outPath]
    rfl
  have hDir :=
    length_sacprocOutpathGen (List.replicate 250 (ch 'a'))
      t.outPath
  rw [if_pos hEmpty, hBase] at hDir
  refine ⟨_, hRet, rfl, by omega, by rw [hDir],
    pathNode_terminated, ?_⟩
  intro hFit
  have hSac := hFit.sacDir
  simp only [hDir] at hSac
  revert hSac
  decide

end TankConvertor
