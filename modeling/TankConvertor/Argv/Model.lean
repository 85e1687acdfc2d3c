import TankConvertor.Library.CString
import TankConvertor.Swap.Makelocal

/-
  `proc_argv` of `tbconvert.c`.

  An argument is given by the bytes it begins with; its text
  is what stands before the terminator.  The static variables
  have their initial values, as at the one call in `main`.
  What is printed is left out.

  Key definitions include:
    * `ArgState` and `ArgResult`
    * `argLoop` and `argFinish`
    * `procArgv`
-/

------------------------------------------------------------
-- Arguments And Variables
------------------------------------------------------------

namespace TankConvertor

abbrev Arg := List UInt8

/- `MAX_PATH_LENGTH`. -/
def maxPathLength : Nat := 256

/- `sizeof(outformat)`. -/
def outformatSize : Nat := 16

/- The options, as the strings compared with. -/
def optV : List UInt8 := ['-', 'v'].map ch
def optH : List UInt8 := ['-', 'h'].map ch
def optF : List UInt8 := ['-', 'f'].map ch
def optO : List UInt8 := ['-', 'o'].map ch

/- The names of the formats. -/
def fmtSac : List UInt8 := ['S', 'A', 'C'].map ch
def fmtMseed : List UInt8 := ['M', 'S', 'E', 'E', 'D'].map ch
def fmtMseed3 : List UInt8 :=
  ['M', 'S', 'E', 'E', 'D', '3'].map ch

/- `CONV_FORMAT_SAC` and its likes. -/
inductive ConvFormat where
| sac
| mseed
| mseed3
deriving DecidableEq, Repr

/- The variables that the routine sets. -/
structure ArgState where
  outformat : List UInt8
  outPath : List UInt8
  inputFile : Option Arg
  convFormat : ConvFormat
deriving DecidableEq, Repr

def argInit : ArgState where
  outformat := List.replicate outformatSize 0
  outPath := List.replicate maxPathLength 0
  inputFile := none
  convFormat := .sac

/-
  What a call comes to: it uses `argv[argc]`, it leaves the
  program, or it returns.
-/
inductive ArgResult where
| past
| exit
| ret (code : Int) (s : ArgState)
deriving DecidableEq, Repr

------------------------------------------------------------
-- The Routine
------------------------------------------------------------

/- The value of `-f`, in capitals. -/
def setOutformat (value : Arg) (s : ArgState) : ArgState :=
  { s with
    outformat :=
      upcase (strncpy s.outformat value (outformatSize - 1)) }

/- The value of `-o`. -/
def setOutPath (value : Arg) (s : ArgState) : ArgState :=
  { s with
    outPath := strncpy s.outPath value (maxPathLength - 1) }

/- What follows the loop. -/
def argFinish (s : ArgState) : ArgResult :=
  if s.inputFile = none then
    .ret (-1) s
  else
    let outformat :=
      if (cstr s.outformat).length = 0 then fmtSac
      else s.outformat
    if strcmp outformat fmtSac = 0 then
      .ret 0 { s with convFormat := .sac }
    else if strcmp outformat fmtMseed = 0 ∨
        strcmp outformat fmtMseed3 = 0 then
      .ret 0
        { s with
          convFormat :=
            if strcmp outformat fmtMseed = 0 then .mseed
            else .mseed3 }
    else
      .ret (-1) s

/- The loop, over the arguments from `argv[i]` on. -/
def argLoop : List Arg → ArgState → ArgResult
| [], s => argFinish s
| arg :: rest, s =>
    if strcmp arg optV = 0 then .exit
    else if strcmp arg optH = 0 then .exit
    else if strcmp arg optF = 0 then
      match rest with
      | [] => .past
      | value :: rest => argLoop rest (setOutformat value s)
    else if strcmp arg optO = 0 then
      match rest with
      | [] => .past
      | value :: rest => argLoop rest (setOutPath value s)
    else if rest = [] then
      argLoop rest { s with inputFile := some arg }
    else
      .ret (-1) s

/- The call for `argv`, the name of the program included. -/
def procArgv (argv : List Arg) : ArgResult :=
  argLoop argv.tail argInit

end TankConvertor
