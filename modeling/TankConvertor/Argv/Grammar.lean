import TankConvertor.Argv.Model

/-
  The grammar of the command line: options with a value each,
  then the name of the input file.

  The routine follows it except where an option comes last:
  the value is then taken from behind the arguments.

  Key definitions include:
    * `OptPair` and `pairArgs`
    * `lastValue` and `convFormatOf`
    * `Grammar`
    * `FollowsGrammar`

  Key theorems include:
    * `exists_pairs`
    * `argLoop_pairs`
    * `afterPairs_foldl`
    * `procArgv_cases`
    * `procArgv_follows_iff`
-/

------------------------------------------------------------
-- The Grammar
------------------------------------------------------------

namespace TankConvertor

/- The argument asks for a value. -/
def IsOption (arg : Arg) : Prop :=
  cstr arg = optF ∨ cstr arg = optO

instance (arg : Arg) : Decidable (IsOption arg) := by
  unfold IsOption
  infer_instance

/- An option and its value. -/
structure OptPair where
  opt : Arg
  value : Arg
  isOption : IsOption opt

/- The arguments that options with values take up. -/
def pairArgs (pairs : List OptPair) : List Arg :=
  pairs.flatMap (fun p => [p.opt, p.value])

@[simp] theorem pairArgs_nil :
    pairArgs [] = [] := rfl

@[simp] theorem pairArgs_cons
    (p : OptPair)
    (pairs : List OptPair) :
    pairArgs (p :: pairs) = p.opt :: p.value :: pairArgs pairs :=
  rfl

/- The value that an option was given last. -/
def lastValue
    (opt : List UInt8)
    (pairs : List OptPair) :
    Option Arg :=
  (pairs.filter (fun p => cstr p.opt = opt)).getLast?.map
    OptPair.value

/- The format that a value names, ignoring case. -/
def convFormatOf (value : Option Arg) : Option ConvFormat :=
  let name := (value.elim [] cstr).map toupper
  if name = [] ∨ name = fmtSac then some .sac
  else if name = fmtMseed then some .mseed
  else if name = fmtMseed3 then some .mseed3
  else none

/-
  Pairs, one final argument that is no option, and a format
  that is known.
-/
structure Grammar
    (args : List Arg)
    (pairs : List OptPair)
    (final : Arg)
    (format : ConvFormat) : Prop where
  args_eq : args = pairArgs pairs ++ [final]
  final_plain : ¬ IsOption final
  format_eq : convFormatOf (lastValue optF pairs) = some format

/- Pairs, and an option without its value. -/
def EndsInOption (args : List Arg) : Prop :=
  ∃ pairs opt, IsOption opt ∧ args = pairArgs pairs ++ [opt]

/- No argument in the place of an option is `-v` or `-h`. -/
def PlainOptions (args : List Arg) : Prop :=
  ∀ pairs arg rest, args = pairArgs pairs ++ arg :: rest →
    cstr arg ≠ optV ∧ cstr arg ≠ optH

/- What the routine promises of a call. -/
structure FollowsGrammar
    (argv : List Arg)
    (r : ArgResult) : Prop where
  inside : r ≠ .past
  trailing : EndsInOption argv.tail → ∃ s, r = .ret (-1) s
  accepts :
    (∃ s, r = .ret 0 s) ↔
      ∃ pairs final format,
        Grammar argv.tail pairs final format
  values :
    ∀ pairs final format s,
      Grammar argv.tail pairs final format →
        r = .ret 0 s →
        s.inputFile = some final ∧ s.convFormat = format ∧
          cstr s.outPath =
            ((lastValue optO pairs).elim [] cstr).take
              (maxPathLength - 1)

------------------------------------------------------------
-- How Arguments Are Split
------------------------------------------------------------

/- What can stand after all pairs in front. -/
inductive Stops : List Arg → Prop where
| none : Stops []
| option (arg : Arg) : IsOption arg → Stops [arg]
| plain (arg : Arg) (rest : List Arg) :
    ¬ IsOption arg → Stops (arg :: rest)

/- Every list of arguments begins with its pairs. -/
theorem exists_pairs :
    ∀ args : List Arg,
      ∃ pairs rest, args = pairArgs pairs ++ rest ∧ Stops rest
| [] => ⟨[], [], rfl, .none⟩
| [arg] => by
    by_cases hOpt : IsOption arg
    · exact ⟨[], [arg], rfl, .option arg hOpt⟩
    · exact ⟨[], [arg], rfl, .plain arg [] hOpt⟩
| arg :: value :: args => by
    by_cases hOpt : IsOption arg
    · rcases exists_pairs args with ⟨pairs, rest, hEq, hStops⟩
      refine ⟨⟨arg, value, hOpt⟩ :: pairs, rest, ?_, hStops⟩
      rw [pairArgs_cons, hEq]
      rfl
    · exact ⟨[], arg :: value :: args, rfl,
        .plain arg (value :: args) hOpt⟩

/- A list without `-v` and `-h` has none as an option. -/
theorem plainOptions_of_forall
    {args : List Arg}
    (hAll : ∀ arg ∈ args, cstr arg ≠ optV ∧ cstr arg ≠ optH) :
    PlainOptions args := by
  intro pairs arg rest hEq
  apply hAll
  simp [hEq]

------------------------------------------------------------
-- The Loop Over The Arguments
------------------------------------------------------------

theorem strcmp_opt
    (arg : Arg)
    {opt : List UInt8}
    (hOpt : cstr opt = opt) :
    strcmp arg opt = 0 ↔ cstr arg = opt := by
  rw [strcmp_eq_zero_iff, hOpt]

theorem strcmp_optV (arg : Arg) :
    strcmp arg optV = 0 ↔ cstr arg = optV :=
  strcmp_opt arg (by decide)

theorem strcmp_optH (arg : Arg) :
    strcmp arg optH = 0 ↔ cstr arg = optH :=
  strcmp_opt arg (by decide)

theorem strcmp_optF (arg : Arg) :
    strcmp arg optF = 0 ↔ cstr arg = optF :=
  strcmp_opt arg (by decide)

theorem strcmp_optO (arg : Arg) :
    strcmp arg optO = 0 ↔ cstr arg = optO :=
  strcmp_opt arg (by decide)

/- What an option and its value do. -/
def applyPair (s : ArgState) (p : OptPair) : ArgState :=
  if cstr p.opt = optF then setOutformat p.value s
  else setOutPath p.value s

theorem argLoop_pair
    (p : OptPair)
    (rest : List Arg)
    (s : ArgState) :
    argLoop (p.opt :: p.value :: rest) s =
      argLoop rest (applyPair s p) := by
  rw [argLoop]
  simp only [strcmp_optV, strcmp_optH, strcmp_optF,
    strcmp_optO, applyPair]
  rcases p.isOption with h | h
  · rw [h, if_neg (by decide), if_neg (by decide), if_pos rfl,
      if_pos rfl]
  · rw [h, if_neg (by decide), if_neg (by decide),
      if_neg (by decide), if_pos rfl, if_neg (by decide)]

/- Pairs are taken one after the other. -/
theorem argLoop_pairs
    (pairs : List OptPair)
    (rest : List Arg)
    (s : ArgState) :
    argLoop (pairArgs pairs ++ rest) s =
      argLoop rest (pairs.foldl applyPair s) := by
  induction pairs generalizing s with
  | nil => rfl
  | cons p pairs ih =>
      rw [pairArgs_cons, List.cons_append, List.cons_append,
        argLoop_pair, ih]
      rfl

/- A last option takes its value from behind the arguments. -/
theorem argLoop_option
    {arg : Arg}
    (hOpt : IsOption arg)
    (s : ArgState) :
    argLoop [arg] s = .past := by
  rw [argLoop]
  simp only [strcmp_optV, strcmp_optH, strcmp_optF, strcmp_optO]
  rcases hOpt with h | h
  · rw [h, if_neg (by decide), if_neg (by decide), if_pos rfl]
  · rw [h, if_neg (by decide), if_neg (by decide),
      if_neg (by decide), if_pos rfl]

/- Any other argument is the input file, if it is the last. -/
theorem argLoop_plain
    {arg : Arg}
    (hOpt : ¬ IsOption arg)
    (hHelp : cstr arg ≠ optV ∧ cstr arg ≠ optH)
    (rest : List Arg)
    (s : ArgState) :
    argLoop (arg :: rest) s =
      if rest = [] then
        argFinish { s with inputFile := some arg }
      else
        .ret (-1) s := by
  unfold IsOption at hOpt
  rw [not_or] at hOpt
  rw [argLoop.eq_def]
  simp only [strcmp_optV, strcmp_optH, strcmp_optF,
    strcmp_optO, if_neg hHelp.1, if_neg hHelp.2,
    if_neg hOpt.1, if_neg hOpt.2]
  split
  · rename_i hLast
    rw [hLast]
    rfl
  · rfl

------------------------------------------------------------
-- The Variables After The Pairs
------------------------------------------------------------

/- A cut does not make a short word out of another. -/
theorem take_eq_iff
    {n : Nat}
    {word : List UInt8}
    (hShort : word.length < n)
    (bs : List UInt8) :
    bs.take n = word ↔ bs = word := by
  constructor
  · intro hTake
    rw [← hTake]
    have hLen := congrArg List.length hTake
    rw [List.length_take] at hLen
    exact (List.take_of_length_le (by omega)).symm
  · rintro rfl
    exact List.take_of_length_le (by omega)

/-
  The buffers hold the last values, cut to their sizes, and
  still end with a terminator.
-/
structure AfterPairs
    (pairs : List OptPair)
    (s : ArgState) : Prop where
  outformat :
    cstr s.outformat =
      (((lastValue optF pairs).elim [] cstr).take
        (outformatSize - 1)).map toupper
  formatEnd : cstr (s.outformat.drop (outformatSize - 1)) = []
  outPath :
    cstr s.outPath =
      ((lastValue optO pairs).elim [] cstr).take
        (maxPathLength - 1)
  pathEnd : cstr (s.outPath.drop (maxPathLength - 1)) = []
  inputFile : s.inputFile = none

theorem lastValue_snoc
    (opt : List UInt8)
    (pairs : List OptPair)
    (p : OptPair) :
    lastValue opt (pairs ++ [p]) =
      if cstr p.opt = opt then some p.value
      else lastValue opt pairs := by
  unfold lastValue
  rw [List.filter_append]
  by_cases hOpt : cstr p.opt = opt
  · simp [hOpt]
  · simp [hOpt]

theorem afterPairs_init :
    AfterPairs [] argInit where
  outformat := by decide
  formatEnd := by decide
  outPath := by decide
  pathEnd := by decide
  inputFile := rfl

/- A pair overwrites the one value that it sets. -/
theorem afterPairs_snoc
    {pairs : List OptPair}
    {s : ArgState}
    (h : AfterPairs pairs s)
    (p : OptPair) :
    AfterPairs (pairs ++ [p]) (applyPair s p) := by
  unfold applyPair
  rcases p.isOption with hOpt | hOpt
  · have hOther : cstr p.opt ≠ optO := by
      rw [hOpt]
      decide
    rw [if_pos hOpt]
    refine ⟨?_, ?_, ?_, h.pathEnd, h.inputFile⟩
    · rw [lastValue_snoc, if_pos hOpt, setOutformat,
        cstr_upcase, cstr_strncpy h.formatEnd]
      rfl
    · apply drop_upcase
      rw [drop_strncpy]
      exact h.formatEnd
    · rw [lastValue_snoc, if_neg hOther]
      exact h.outPath
  · have hOther : cstr p.opt ≠ optF := by
      rw [hOpt]
      decide
    rw [if_neg hOther]
    refine ⟨?_, h.formatEnd, ?_, ?_, h.inputFile⟩
    · rw [lastValue_snoc, if_neg hOther]
      exact h.outformat
    · rw [lastValue_snoc, if_pos hOpt, setOutPath,
        cstr_strncpy h.pathEnd]
      rfl
    · rw [setOutPath, drop_strncpy]
      exact h.pathEnd

theorem afterPairs_foldl
    (pairs : List OptPair) :
    AfterPairs pairs (pairs.foldl applyPair argInit) := by
  induction pairs using List.reverseRecOn with
  | nil => exact afterPairs_init
  | append_singleton pairs p ih =>
      rw [List.foldl_append]
      exact afterPairs_snoc ih p

------------------------------------------------------------
-- The Format
------------------------------------------------------------

/- A name that is not too long is in the buffer as given. -/
theorem outformat_eq_iff
    {pairs : List OptPair}
    {s : ArgState}
    (h : AfterPairs pairs s)
    (word : List UInt8)
    (hShort : word.length < outformatSize - 1) :
    cstr s.outformat = word ↔
      ((lastValue optF pairs).elim [] cstr).map toupper =
        word := by
  rw [h.outformat, List.map_take, take_eq_iff hShort]

/- Comparing with the name of a format. -/
theorem strcmp_outformat
    {pairs : List OptPair}
    {s : ArgState}
    (h : AfterPairs pairs s)
    (name : List UInt8)
    (hName : cstr name = name)
    (hShort : name.length < outformatSize - 1) :
    strcmp s.outformat name = 0 ↔
      ((lastValue optF pairs).elim [] cstr).map toupper =
        name := by
  rw [strcmp_eq_zero_iff, hName, outformat_eq_iff h name hShort]

/- With an input file, the format decides. -/
theorem argFinish_of_format
    {pairs : List OptPair}
    {s : ArgState}
    (h : AfterPairs pairs s)
    (final : Arg) :
    argFinish { s with inputFile := some final } =
      match convFormatOf (lastValue optF pairs) with
      | some format =>
          .ret 0
            { s with
              inputFile := some final
              convFormat := format }
      | none => .ret (-1) { s with inputFile := some final } := by
  have hEmpty := outformat_eq_iff h [] (by decide)
  have hSac :=
    strcmp_outformat h fmtSac (by decide) (by decide)
  have hMseed :=
    strcmp_outformat h fmtMseed (by decide) (by decide)
  have hMseed3 :=
    strcmp_outformat h fmtMseed3 (by decide) (by decide)
  unfold argFinish convFormatOf
  generalize
    ((lastValue optF pairs).elim [] cstr).map toupper = up at *
  simp only [List.length_eq_zero_iff, hEmpty, reduceCtorEq,
    if_false]
  by_cases hNone : up = []
  · have hDefault : strcmp fmtSac fmtSac = 0 := by decide
    rw [if_pos hNone, if_pos hDefault, if_pos (Or.inl hNone)]
  · simp only [if_neg hNone, hSac, hMseed, hMseed3]
    by_cases hIsSac : up = fmtSac
    · rw [if_pos hIsSac, if_pos (Or.inr hIsSac)]
    · rw [if_neg hIsSac, if_neg (not_or.mpr ⟨hNone, hIsSac⟩)]
      by_cases hIsMseed : up = fmtMseed
      · rw [if_pos (Or.inl hIsMseed), if_pos hIsMseed,
          if_pos hIsMseed]
      · rw [if_neg hIsMseed, if_neg hIsMseed]
        by_cases hIsMseed3 : up = fmtMseed3
        · rw [if_pos (Or.inr hIsMseed3), if_pos hIsMseed3]
        · rw [if_neg (not_or.mpr ⟨hIsMseed, hIsMseed3⟩),
            if_neg hIsMseed3]

------------------------------------------------------------
-- The Whole Call
------------------------------------------------------------

/- A call in the grammar succeeds, with these values. -/
theorem procArgv_of_grammar
    {argv : List Arg}
    (hPlain : PlainOptions argv.tail)
    {pairs : List OptPair}
    {final : Arg}
    {format : ConvFormat}
    (hGrammar : Grammar argv.tail pairs final format) :
    ∃ s, AfterPairs pairs s ∧
      procArgv argv =
        .ret 0
          { s with
            inputFile := some final
            convFormat := format } := by
  have hAfter := afterPairs_foldl pairs
  have hHelp := hPlain pairs final [] hGrammar.args_eq
  refine ⟨_, hAfter, ?_⟩
  rw [procArgv, hGrammar.args_eq, argLoop_pairs,
    argLoop_plain hGrammar.final_plain hHelp, if_pos rfl,
    argFinish_of_format hAfter, hGrammar.format_eq]

/-
  A call ends in one of three ways, by what stands after the
  pairs in front.
-/
theorem procArgv_cases
    {argv : List Arg}
    (hPlain : PlainOptions argv.tail) :
    (EndsInOption argv.tail ∧ procArgv argv = .past) ∨
      (∃ pairs final format s,
        Grammar argv.tail pairs final format ∧
          procArgv argv = .ret 0 s) ∨
      ∃ s, procArgv argv = .ret (-1) s := by
  rcases exists_pairs argv.tail with ⟨pairs, rest, hEq, hStops⟩
  have hAfter := afterPairs_foldl pairs
  rw [procArgv, hEq, argLoop_pairs]
  cases hStops with
  | none =>
      rw [argLoop, argFinish, if_pos hAfter.inputFile]
      exact Or.inr (Or.inr ⟨_, rfl⟩)
  | option arg hOpt =>
      exact Or.inl ⟨⟨pairs, arg, hOpt, rfl⟩, argLoop_option hOpt _⟩
  | plain arg rest hOpt =>
      have hHelp := hPlain pairs arg rest hEq
      rw [argLoop_plain hOpt hHelp]
      by_cases hLast : rest = []
      · subst hLast
        rw [if_pos rfl, argFinish_of_format hAfter]
        cases hFormat : convFormatOf (lastValue optF pairs) with
        | some format =>
            exact Or.inr (Or.inl
              ⟨pairs, arg, format, _, ⟨rfl, hOpt, hFormat⟩, rfl⟩)
        | none => exact Or.inr (Or.inr ⟨_, rfl⟩)
      · rw [if_neg hLast]
        exact Or.inr (Or.inr ⟨_, rfl⟩)

/- A call that succeeds is in the grammar. -/
theorem grammar_of_procArgv
    {argv : List Arg}
    (hPlain : PlainOptions argv.tail)
    {s : ArgState}
    (hRet : procArgv argv = .ret 0 s) :
    ∃ pairs final format,
      Grammar argv.tail pairs final format := by
  rcases procArgv_cases hPlain with
    ⟨_, hEq⟩ | ⟨pairs, final, format, _, hGrammar, _⟩ | ⟨_, hEq⟩
  · rw [hEq] at hRet
    cases hRet
  · exact ⟨pairs, final, format, hGrammar⟩
  · rw [hEq] at hRet
    cases hRet

/- Only an option at the end leads behind the arguments. -/
theorem procArgv_past_iff
    {argv : List Arg}
    (hPlain : PlainOptions argv.tail) :
    procArgv argv = .past ↔ EndsInOption argv.tail := by
  constructor
  · intro hPast
    rcases procArgv_cases hPlain with
      ⟨hEnds, _⟩ | ⟨_, _, _, _, _, hEq⟩ | ⟨_, hEq⟩
    · exact hEnds
    · rw [hEq] at hPast
      cases hPast
    · rw [hEq] at hPast
      cases hPast
  · rintro ⟨pairs, opt, hOpt, hEq⟩
    rw [procArgv, hEq, argLoop_pairs, argLoop_option hOpt]

/-
  The routine follows the grammar unless the arguments end
  with an option that has no value.
-/
theorem procArgv_follows_iff
    {argv : List Arg}
    (hPlain : PlainOptions argv.tail) :
    FollowsGrammar argv (procArgv argv) ↔
      ¬ EndsInOption argv.tail := by
  have hPast := procArgv_past_iff hPlain
  constructor
  · intro hFollows hEnds
    exact hFollows.inside (hPast.mpr hEnds)
  · intro hEnds
    refine ⟨fun h => hEnds (hPast.mp h),
      fun h => (hEnds h).elim, ⟨?_, ?_⟩, ?_⟩
    · rintro ⟨s, hRet⟩
      exact grammar_of_procArgv hPlain hRet
    · rintro ⟨pairs, final, format, hGrammar⟩
      rcases procArgv_of_grammar hPlain hGrammar with
        ⟨s, _, hRet⟩
      exact ⟨_, hRet⟩
    · intro pairs final format s hGrammar hRet
      rcases procArgv_of_grammar hPlain hGrammar with
        ⟨s', hAfter, hRet'⟩
      rw [hRet'] at hRet
      cases hRet
      exact ⟨rfl, rfl, hAfter.outPath⟩

/- `tbconvert -f mseed3 -f Sac a.tnk`. -/
theorem procArgv_follows_twice :
    FollowsGrammar
      [[ch 't'], optF, ['m', 's', 'e', 'e', 'd', '3'].map ch,
        optF, ['S', 'a', 'c'].map ch, [ch 'a']]
      (procArgv
        [[ch 't'], optF, ['m', 's', 'e', 'e', 'd', '3'].map ch,
          optF, ['S', 'a', 'c'].map ch, [ch 'a']]) := by
  refine (procArgv_follows_iff
    (plainOptions_of_forall (by decide))).mpr ?_
  rw [← procArgv_past_iff (plainOptions_of_forall (by decide))]
  decide

/- `tbconvert -f` takes its value from `argv[argc]`. -/
theorem lone_option_past :
    PlainOptions [optF] ∧
      ¬ FollowsGrammar [[ch 't'], optF]
        (procArgv [[ch 't'], optF]) := by
  refine ⟨plainOptions_of_forall (by decide), ?_⟩
  intro hFollows
  exact hFollows.inside (by decide)

end TankConvertor
