import TankConvertor.Library.Blocks
import TankConvertor.Sac.Codes
import TankConvertor.Sac.Model
import TankConvertor.Scan.Lists

/-
  The names of the SAC files of one run.  A name joins the
  four codes with underscores, so that it gives the codes
  back as long as it is known how many underscores they have
  themselves.

  Key definitions include:
    * `underscores`
    * `SameUnderscores`

  Key theorems include:
    * `scnl_of_sacPath_eq`
    * `sac_paths_differ`
-/

------------------------------------------------------------
-- Codes From A Name
------------------------------------------------------------

namespace TankConvertor

/- How often an underscore occurs in a string. -/
def underscores (bs : List UInt8) : Nat :=
  (cstr bs).count (ch '_')

/-
  Underscores occur as often in the stations, the channels
  and the networks of the two; the location comes last and
  does not matter.
-/
structure SameUnderscores (a b : TraceNode) : Prop where
  sta : underscores a.fromSta = underscores b.fromSta
  chan : underscores a.fromChan = underscores b.fromChan
  net : underscores a.fromNet = underscores b.fromNet

/- The name of a file, from the last slash to the dot. -/
theorem sacPath_eq
    (outpath : List UInt8)
    (n : TraceNode) :
    sacPath outpath n =
      (cstr outpath ++ [ch '/']) ++
        ((cstr n.fromSta ++ ch '_' ::
          (cstr n.fromChan ++ ch '_' ::
            (cstr n.fromNet ++ ch '_' :: cstr n.fromLoc))) ++
          ['.', 's', 'a', 'c'].map ch) := by
  unfold sacPath
  simp only [List.append_assoc, List.cons_append,
    List.nil_append]

/- The same name, the same codes. -/
theorem scnl_of_sacPath_eq
    {outpath : List UInt8}
    {a b : TraceNode}
    (hSame : SameUnderscores a b)
    (hPath : sacPath outpath a = sacPath outpath b) :
    scnl a = scnl b := by
  rw [sacPath_eq, sacPath_eq, List.append_cancel_left_eq,
    List.append_cancel_right_eq] at hPath
  rcases Blocks.append_cons_inj hSame.sta hPath with
    ⟨hSta, hPath⟩
  rcases Blocks.append_cons_inj hSame.chan hPath with
    ⟨hChan, hPath⟩
  rcases Blocks.append_cons_inj hSame.net hPath with
    ⟨hNet, hLoc⟩
  exact (scnl_eq_iff a b).mpr ⟨hSta, hChan, hNet, hLoc⟩

------------------------------------------------------------
-- The Files Of A Run
------------------------------------------------------------

/-
  Two nodes of a scan have different paths if underscores
  occur alike in their codes, and if that holds of all nodes
  then each node has a file of its own.
-/
theorem sac_paths_differ
    [Rounding]
    (outpath : List UInt8)
    {host : ByteOrder}
    {fsize : Nat}
    {m : ByteMem}
    {r : ScanResult}
    (hEnds : (scanLoop host fsize).Ends (scanInit m) r) :
    r.traceList.Pairwise
        (fun a b =>
          SameUnderscores a b →
            sacPath outpath a ≠ sacPath outpath b) ∧
      ((∀ a ∈ r.traceList, ∀ b ∈ r.traceList,
          SameUnderscores a b) →
        (r.traceList.map (sacPath outpath)).Nodup) := by
  have hDiffer :
      r.traceList.Pairwise
        (fun a b =>
          SameUnderscores a b →
            sacPath outpath a ≠ sacPath outpath b) := by
    refine (keys_of_ends hEnds).imp ?_
    intro a b hKeys hSame hPath
    exact hKeys (scnl_of_sacPath_eq hSame hPath)
  refine ⟨hDiffer, fun hAll => ?_⟩
  rw [List.Nodup, List.pairwise_map]
  refine hDiffer.imp_of_mem ?_
  intro a b ha hb hPath
  exact hPath (hAll a ha b hb)

------------------------------------------------------------
-- Two Traces, One File
------------------------------------------------------------

/- A code in its field, filled up with terminators. -/
def codeField (size : Nat) (code : List Char) : List UInt8 :=
  code.map ch ++ List.replicate (size - code.length) 0

/- A header without samples, with these codes. -/
def codedHeader (sta net chan loc : List Char) : List UInt8 :=
  List.replicate 24 0 ++ [0, 0, 0, 0, 0, 0, 0xF0, 0x3F] ++
    codeField 7 sta ++ codeField 9 net ++ codeField 4 chan ++
    codeField 3 loc ++ [ch '2', ch '0', ch 'i', ch '4'] ++
    List.replicate 5 0

/- A state of the scan whose last header ends the tank. -/
theorem trace_ends
    [Rounding]
    {host : ByteOrder}
    {tank : List UInt8}
    {k : Nat}
    (P : ScanState → Prop)
    [DecidablePred P]
    (hExit :
      ((scanLoop host tank.length).exit k
          (scanInit (mapTank tank (fun _ => 0)))).map
        (fun t => decide (P t)) = some true) :
    ∃ t, P t ∧
      (scanLoop host tank.length).Ends
        (scanInit (mapTank tank (fun _ => 0)))
        (scanFinish t) := by
  rcases Option.map_eq_some_iff.mp hExit with ⟨t, ht, hP⟩
  exact ⟨t, of_decide_eq_true hP, DoLoop.ends_of_exit ht⟩

/- Two headers, "A_B" and "C", and "A" and "B_C". -/
def underscoreTank : List UInt8 :=
  codedHeader ['A', '_', 'B'] ['T', 'W'] ['C'] ['-', '-'] ++
    codedHeader ['A'] ['T', 'W'] ['B', '_', 'C'] ['-', '-']

attribute [local instance] Rounding.nearest

/- Both traces are written to "./A_B_C_TW_--.sac". -/
theorem underscoreTank_one_file :
    ∃ r,
      (scanLoop .little underscoreTank.length).Ends
          (scanInit (mapTank underscoreTank (fun _ => 0))) r ∧
        ∃ a ∈ r.traceList, ∃ b ∈ r.traceList,
          a.Terminated ∧ b.Terminated ∧ scnl a ≠ scnl b ∧
            sacPath [ch '.'] a = sacPath [ch '.'] b := by
  rcases trace_ends (k := 2)
      (fun t =>
        ∃ a ∈ t.root.twalk, ∃ b ∈ t.root.twalk,
          a.Terminated ∧ b.Terminated ∧
            cstr a.fromSta ≠ cstr b.fromSta ∧
            sacPath [ch '.'] a = sacPath [ch '.'] b)
      (by decide +kernel :
        ((scanLoop .little underscoreTank.length).exit 2
          (scanInit (mapTank underscoreTank (fun _ => 0)))).map
            _ = some true) with
    ⟨t, ⟨a, ha, b, hb, hTermA, hTermB, hSta, hPath⟩, hEnds⟩
  refine ⟨scanFinish t, hEnds, sortTlist a,
    List.mem_map.mpr ⟨a, ha, rfl⟩, sortTlist b,
    List.mem_map.mpr ⟨b, hb, rfl⟩, ⟨hTermA.sta, hTermA.chan,
      hTermA.net, hTermA.loc⟩, ⟨hTermB.sta, hTermB.chan,
      hTermB.net, hTermB.loc⟩, ?_, hPath⟩
  intro hKey
  exact hSta ((scnl_eq_iff _ _).mp hKey).1

/- Two stations whose names have one underscore each. -/
def stationsTank : List UInt8 :=
  codedHeader ['A', '_', 'B'] ['T', 'W'] ['C'] ['-', '-'] ++
    codedHeader ['A', '_', 'C'] ['T', 'W'] ['C'] ['-', '-']

theorem stationsTank_two_files :
    ∃ r,
      (scanLoop .little stationsTank.length).Ends
          (scanInit (mapTank stationsTank (fun _ => 0))) r ∧
        r.traceList.length = 2 ∧
        (r.traceList.map (sacPath [ch '.'])).Nodup := by
  rcases trace_ends (k := 2)
      (fun t =>
        t.root.twalk.length = 2 ∧
          ∀ a ∈ t.root.twalk, ∀ b ∈ t.root.twalk,
            underscores a.fromSta = underscores b.fromSta ∧
              underscores a.fromChan = underscores b.fromChan ∧
              underscores a.fromNet = underscores b.fromNet)
      (by decide +kernel :
        ((scanLoop .little stationsTank.length).exit 2
          (scanInit (mapTank stationsTank (fun _ => 0)))).map
            _ = some true) with
    ⟨t, ⟨hLen, hSame⟩, hEnds⟩
  refine ⟨_, hEnds, ?_,
    (sac_paths_differ [ch '.'] hEnds).2 ?_⟩
  · rw [scanFinish, List.length_map, hLen]
  · intro a ha b hb
    rcases List.mem_map.mp ha with ⟨a', ha', rfl⟩
    rcases List.mem_map.mp hb with ⟨b', hb', rfl⟩
    rcases hSame a' ha' b' hb' with ⟨hSta, hChan, hNet⟩
    exact ⟨hSta, hChan, hNet⟩

end TankConvertor
