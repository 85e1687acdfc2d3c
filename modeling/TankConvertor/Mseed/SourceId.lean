import TankConvertor.Library.Blocks
import TankConvertor.Mseed.Model
import TankConvertor.Sac.Names
import TankConvertor.Scan.Held

/-
  The source identifiers that `msproc_tlist_add` gives the
  traces of a scan, with `ms_nslc2sid` and
  `ms_seedchan2xchan` as in `genutils.c`.

  The null location is left out of an identifier, which makes
  it the same as that of an empty location.

  Key definitions include:
    * `msSeedchan2xchan`
    * `msNslc2sid`
    * `sidOf`
    * `NullLoc`

  Key theorems include:
    * `sidOf_eq_iff`
    * `same_sid_iff`
-/

------------------------------------------------------------
-- Identifiers
------------------------------------------------------------

namespace TankConvertor

/- `LM_SIDLEN`. -/
def lmSidlen : Nat := 64

/- A channel of three characters, with its parts set apart. -/
def msSeedchan2xchan (chan : List UInt8) : Option (List UInt8) :=
  match cstr chan with
  | [band, source, position] =>
      some [band, ch '_', source, ch '_', position]
  | _ => none

/- The identifier in a buffer that takes all of it. -/
def sidText (a : SidArgs) : List UInt8 :=
  ['F', 'D', 'S', 'N', ':'].map ch ++
    (cstr a.net ++ ch '_' ::
      (cstr a.sta ++ ch '_' ::
        (cstr (a.loc.getD []) ++ ch '_' ::
          (msSeedchan2xchan a.chan).getD (cstr a.chan))))

/-
  Return value and string in the buffer.  What does not fit
  in `sidlen` bytes is cut, and reported.
-/
def msNslc2sid
    (sidlen : Nat)
    (a : SidArgs) :
    Int × List UInt8 :=
  if sidlen < 13 then
    (-1, [])
  else
    let text := sidText a
    if text.length < sidlen then (text.length, text)
    else (-1, text.take (sidlen - 1))

/- `msr->sid` for the trace. -/
def sidOf (n : TraceNode) : List UInt8 :=
  (msNslc2sid lmSidlen (sidArgsOf n)).2

------------------------------------------------------------
-- Codes From An Identifier
------------------------------------------------------------

theorem cstr_cstr
    (bs : List UInt8) :
    cstr (cstr bs) = cstr bs :=
  cstr_of_not_mem (zero_not_mem_cstr bs)

/- The channel part of an identifier. -/
def chanPart (chan : List UInt8) : List UInt8 :=
  (msSeedchan2xchan chan).getD (cstr chan)

theorem length_chanPart_le
    (chan : List UInt8) :
    (chanPart chan).length ≤ (cstr chan).length + 2 := by
  unfold chanPart msSeedchan2xchan
  split
  · rename_i hChan
    simp [hChan]
  · simp

/- A channel part is the code, or three letters set apart. -/
theorem chanPart_cases
    (chan : List UInt8) :
    chanPart chan = cstr chan ∨
      ∃ x y z, cstr chan = [x, y, z] ∧
        chanPart chan = [x, ch '_', y, ch '_', z] := by
  unfold chanPart msSeedchan2xchan
  split
  · rename_i x y z hChan
    exact Or.inr ⟨x, y, z, hChan, rfl⟩
  · exact Or.inl rfl

/- A code without underscores is not one set apart. -/
theorem cstr_ne_apart
    {c : List UInt8}
    (hPlain : underscores c = 0)
    (x y z : UInt8) :
    cstr c ≠ [x, ch '_', y, ch '_', z] := by
  intro hEq
  have hMem : ch '_' ∈ cstr c := by
    rw [hEq]
    simp
  exact (List.count_pos_iff.mpr hMem).ne' hPlain

/- Without underscores, the parts give the channel back. -/
theorem chanPart_inj
    {a b : List UInt8}
    (ha : underscores a = 0)
    (hb : underscores b = 0)
    (hEq : chanPart a = chanPart b) :
    cstr a = cstr b := by
  rcases chanPart_cases a with hA | ⟨x, y, z, hA, hPartA⟩ <;>
    rcases chanPart_cases b with hB | ⟨x', y', z', hB, hPartB⟩
  · rw [← hA, ← hB, hEq]
  · rw [hA, hPartB] at hEq
    exact (cstr_ne_apart ha x' y' z' hEq).elim
  · rw [hPartA, hB] at hEq
    exact (cstr_ne_apart hb x y z hEq.symm).elim
  · rw [hPartA, hPartB] at hEq
    rw [hA, hB]
    simpa using hEq

/- The location is missing from the identifier. -/
def NullLoc (n : TraceNode) : Prop :=
  cstr n.fromLoc = [] ∨ cstr n.fromLoc = locNullString

/- The location part of an identifier. -/
def locPart (n : TraceNode) : List UInt8 :=
  cstr ((sidArgsOf n).loc.getD [])

theorem locPart_eq
    (n : TraceNode) :
    locPart n =
      if cstr n.fromLoc = locNullString then []
      else cstr n.fromLoc := by
  have hNull : cstr locNullString = locNullString := by decide
  unfold locPart sidArgsOf
  simp only [ne_eq, strcmp_eq_zero_iff, hNull]
  by_cases hLoc : cstr n.fromLoc = locNullString
  · simp [hLoc]
  · simp [hLoc, cstr_cstr]

/- Two locations look alike if equal, or both missing. -/
theorem locPart_eq_iff
    (a b : TraceNode) :
    locPart a = locPart b ↔
      cstr a.fromLoc = cstr b.fromLoc ∨
        (NullLoc a ∧ NullLoc b) := by
  have hNe : locNullString ≠ [] := by decide
  rw [locPart_eq, locPart_eq]
  unfold NullLoc
  by_cases ha : cstr a.fromLoc = locNullString
  · rw [if_pos ha, ha]
    by_cases hb : cstr b.fromLoc = locNullString
    · simp [hb]
    · rw [if_neg hb]
      constructor
      · intro hEmpty
        exact Or.inr ⟨Or.inr rfl, Or.inl hEmpty.symm⟩
      · rintro (hEq | ⟨_, hEmpty | hNull⟩)
        · exact (hb hEq.symm).elim
        · exact hEmpty.symm
        · exact (hb hNull).elim
  · rw [if_neg ha]
    by_cases hb : cstr b.fromLoc = locNullString
    · rw [if_pos hb]
      constructor
      · intro hEmpty
        exact Or.inr ⟨Or.inl hEmpty, Or.inr hb⟩
      · rintro (hEq | ⟨hEmpty | hNull, _⟩)
        · exact (ha (hEq.trans hb)).elim
        · exact hEmpty
        · exact (ha hNull).elim
    · rw [if_neg hb]
      constructor
      · exact Or.inl
      · rintro (hEq | ⟨hEmptyA | hNull, hEmptyB | hNull'⟩)
        · exact hEq
        · rw [hEmptyA, hEmptyB]
        · exact (hb hNull').elim
        · exact (ha hNull).elim
        · exact (ha hNull).elim

theorem msSeedchan2xchan_cstr
    (chan : List UInt8) :
    msSeedchan2xchan (cstr chan) = msSeedchan2xchan chan := by
  unfold msSeedchan2xchan
  rw [cstr_cstr]

/- The text of an identifier, by its parts. -/
theorem sidText_eq
    (n : TraceNode) :
    sidText (sidArgsOf n) =
      ['F', 'D', 'S', 'N', ':'].map ch ++
        (cstr n.fromNet ++ ch '_' ::
          (cstr n.fromSta ++ ch '_' ::
            (locPart n ++ ch '_' :: chanPart n.fromChan))) := by
  simp only [sidText, sidArgsOf, locPart, chanPart, cstr_cstr,
    msSeedchan2xchan_cstr]

/- Codes that end within their sizes are never cut. -/
theorem sidOf_eq
    {n : TraceNode}
    (hTerm : n.Terminated) :
    sidOf n = sidText (sidArgsOf n) := by
  rcases hTerm.lengths with ⟨hSta, hChan, hNet, hLoc⟩
  rcases hTerm.strings with ⟨hSta', hChan', hNet', hLoc'⟩
  have hPart := length_chanPart_le n.fromChan
  have hLocPart : (locPart n).length ≤ (cstr n.loc).length := by
    rw [locPart_eq, hLoc']
    split
    · exact Nat.zero_le _
    · exact le_rfl
  have hFits : (sidText (sidArgsOf n)).length < lmSidlen := by
    rw [sidText_eq, hNet', hSta']
    simp only [List.length_append, List.length_cons,
      List.length_map, List.length_nil, lmSidlen]
    rw [hChan'] at hPart
    omega
  unfold sidOf msNslc2sid
  rw [if_neg (by decide)]
  simp only [if_pos hFits]

/- No code has an underscore. -/
structure PlainCodes (n : TraceNode) : Prop where
  sta : underscores n.fromSta = 0
  chan : underscores n.fromChan = 0
  net : underscores n.fromNet = 0
  loc : underscores n.fromLoc = 0

theorem PlainCodes.locPart
    {n : TraceNode}
    (hPlain : PlainCodes n) :
    (locPart n).count (ch '_') = 0 := by
  rw [locPart_eq]
  split
  · rfl
  · exact hPlain.loc

/-
  Two identifiers are the same if the codes are, or if they
  differ in two locations that are missing from both.
-/
theorem sidOf_eq_iff
    {a b : TraceNode}
    (hTermA : a.Terminated)
    (hTermB : b.Terminated)
    (hPlainA : PlainCodes a)
    (hPlainB : PlainCodes b) :
    sidOf a = sidOf b ↔
      (cstr a.fromSta = cstr b.fromSta ∧
          cstr a.fromChan = cstr b.fromChan ∧
          cstr a.fromNet = cstr b.fromNet) ∧
        (cstr a.fromLoc = cstr b.fromLoc ∨
          (NullLoc a ∧ NullLoc b)) := by
  rw [sidOf_eq hTermA, sidOf_eq hTermB, sidText_eq, sidText_eq,
    List.append_cancel_left_eq, ← locPart_eq_iff]
  constructor
  · intro hEq
    rcases Blocks.append_cons_inj
        (hPlainA.net.trans hPlainB.net.symm) hEq with
      ⟨hNet, hEq⟩
    rcases Blocks.append_cons_inj
        (hPlainA.sta.trans hPlainB.sta.symm) hEq with
      ⟨hSta, hEq⟩
    rcases Blocks.append_cons_inj
        (hPlainA.locPart.trans hPlainB.locPart.symm) hEq with
      ⟨hLoc, hEq⟩
    have hChan := chanPart_inj hPlainA.chan hPlainB.chan hEq
    exact ⟨⟨hSta, hChan, hNet⟩, hLoc⟩
  · rintro ⟨⟨hSta, hChan, hNet⟩, hLoc⟩
    have hPart : chanPart a.fromChan = chanPart b.fromChan := by
      unfold chanPart msSeedchan2xchan
      rw [hChan]
    rw [hNet, hSta, hLoc, hPart]

------------------------------------------------------------
-- The Traces Of A Scan
------------------------------------------------------------

/- A location of two blanks or dashes is the null location. -/
theorem null_spellings
    (bs : List UInt8) :
    cstr (dashLoc bs) = locNullString ↔
      ∃ x y, cstr bs = [x, y] ∧ x ∈ [ch ' ', ch '-'] ∧
        y ∈ [ch ' ', ch '-'] := by
  have hDash :
      ∀ b : UInt8, dash b = ch '-' ↔ b ∈ [ch ' ', ch '-'] := by
    intro b
    unfold dash
    split <;> simp_all
  rw [cstr_dashLoc]
  constructor
  · intro hEq
    rcases List.map_eq_cons_iff.mp hEq with
      ⟨x, rest, hCode, hx, hRest⟩
    rcases List.map_eq_singleton_iff.mp hRest with ⟨y, hy, hEnd⟩
    exact ⟨x, y, by rw [hCode, hy], (hDash x).mp hx,
      (hDash y).mp hEnd⟩
  · rintro ⟨x, y, hCode, hx, hy⟩
    rw [hCode, List.map_cons, List.map_cons, List.map_nil,
      (hDash x).mpr hx, (hDash y).mpr hy]
    rfl

/-
  Two traces of a scan are given the same identifier exactly
  when they are one, or when they differ in their locations
  only and one of these is empty and the other is null.
-/
theorem same_sid_iff
    [Rounding]
    {host : ByteOrder}
    {fsize : Nat}
    {m : ByteMem}
    {r : ScanResult}
    (hEnds : (scanLoop host fsize).Ends (scanInit m) r)
    {a b : TraceNode}
    (ha : a ∈ r.traceList)
    (hb : b ∈ r.traceList)
    (hTermA : a.Terminated)
    (hTermB : b.Terminated)
    (hPlainA : PlainCodes a)
    (hPlainB : PlainCodes b) :
    sidOf a = sidOf b ↔
      a = b ∨
        (cstr a.fromSta = cstr b.fromSta ∧
          cstr a.fromChan = cstr b.fromChan ∧
          cstr a.fromNet = cstr b.fromNet ∧
          NullLoc a ∧ NullLoc b) := by
  have hOne : scnl a = scnl b → a = b := by
    have hNodup : (r.traceList.map scnl).Nodup := by
      rw [List.Nodup, List.pairwise_map]
      exact keys_of_ends hEnds
    exact fun hKey => List.inj_on_of_nodup_map hNodup ha hb hKey
  rw [sidOf_eq_iff hTermA hTermB hPlainA hPlainB]
  constructor
  · rintro ⟨⟨hSta, hChan, hNet⟩, hLoc | hNull⟩
    · exact Or.inl
        (hOne ((scnl_eq_iff a b).mpr ⟨hSta, hChan, hNet, hLoc⟩))
    · exact Or.inr ⟨hSta, hChan, hNet, hNull⟩
  · rintro (rfl | ⟨hSta, hChan, hNet, hNull⟩)
    · exact ⟨⟨rfl, rfl, rfl⟩, Or.inl rfl⟩
    · exact ⟨⟨hSta, hChan, hNet⟩, Or.inr hNull⟩

/- A header with no location, and one with the null location. -/
def nullLocTank : List UInt8 :=
  codedHeader ['S'] ['T', 'W'] ['H', 'H', 'Z'] [] ++
    codedHeader ['S'] ['T', 'W'] ['H', 'H', 'Z'] ['-', '-']

instance (n : TraceNode) : Decidable (PlainCodes n) :=
  decidable_of_iff
    (underscores n.fromSta = 0 ∧ underscores n.fromChan = 0 ∧
      underscores n.fromNet = 0 ∧ underscores n.fromLoc = 0)
    ⟨fun ⟨hSta, hChan, hNet, hLoc⟩ => ⟨hSta, hChan, hNet, hLoc⟩,
      fun h => ⟨h.sta, h.chan, h.net, h.loc⟩⟩

attribute [local instance] Rounding.nearest

/- What the scan makes of it: two traces, one identifier. -/
theorem nullLocTank_traces :
    ∃ r,
      (scanLoop .little nullLocTank.length).Ends
          (scanInit (mapTank nullLocTank (fun _ => 0))) r ∧
        ∃ a ∈ r.traceList, ∃ b ∈ r.traceList,
          a.Terminated ∧ b.Terminated ∧
            PlainCodes a ∧ PlainCodes b ∧
            a.loc ≠ b.loc ∧ sidOf a = sidOf b := by
  rcases trace_ends (k := 2)
      (fun t =>
        ∃ a ∈ t.root.twalk, ∃ b ∈ t.root.twalk,
          a.Terminated ∧ b.Terminated ∧
            PlainCodes a ∧ PlainCodes b ∧
            a.loc ≠ b.loc ∧ sidOf a = sidOf b)
      (by decide +kernel :
        ((scanLoop .little nullLocTank.length).exit 2
          (scanInit (mapTank nullLocTank (fun _ => 0)))).map
            _ = some true) with
    ⟨t, ⟨a, ha, b, hb, hTermA, hTermB, hPlainA, hPlainB, hLoc,
      hSid⟩, hEnds⟩
  exact ⟨scanFinish t, hEnds, sortTlist a,
    List.mem_map.mpr ⟨a, ha, rfl⟩, sortTlist b,
    List.mem_map.mpr ⟨b, hb, rfl⟩,
    ⟨hTermA.sta, hTermA.chan, hTermA.net, hTermA.loc⟩,
    ⟨hTermB.sta, hTermB.chan, hTermB.net, hTermB.loc⟩,
    ⟨hPlainA.sta, hPlainA.chan, hPlainA.net, hPlainA.loc⟩,
    ⟨hPlainB.sta, hPlainB.chan, hPlainB.net, hPlainB.loc⟩,
    hLoc, hSid⟩

/- An empty location and the null location are merged. -/
theorem nullLocTank_merged :
    ¬ ∀ r,
      (scanLoop .little nullLocTank.length).Ends
          (scanInit (mapTank nullLocTank (fun _ => 0))) r →
        ∀ a ∈ r.traceList, ∀ b ∈ r.traceList,
          a.Terminated → b.Terminated →
            PlainCodes a → PlainCodes b →
              (sidOf a = sidOf b ↔ a = b) := by
  rcases nullLocTank_traces with
    ⟨r, hEnds, a, ha, b, hb, hTermA, hTermB, hPlainA, hPlainB,
      hLoc, hSid⟩
  intro hAgree
  have hSame :=
    (hAgree r hEnds a ha b hb hTermA hTermB hPlainA
      hPlainB).mp hSid
  exact hLoc (congrArg TraceNode.loc hSame)

/- The two of this tank, by the theorem. -/
theorem same_sid_nullLoc :
    ∃ r,
      (scanLoop .little nullLocTank.length).Ends
          (scanInit (mapTank nullLocTank (fun _ => 0))) r ∧
        ∃ a ∈ r.traceList, ∃ b ∈ r.traceList,
          a ≠ b ∧ NullLoc a ∧ NullLoc b := by
  rcases nullLocTank_traces with
    ⟨r, hEnds, a, ha, b, hb, hTermA, hTermB, hPlainA, hPlainB,
      hLoc, hSid⟩
  have hNe : a ≠ b :=
    fun hSame => hLoc (congrArg TraceNode.loc hSame)
  rcases (same_sid_iff hEnds ha hb hTermA hTermB hPlainA
      hPlainB).mp hSid with hSame | ⟨_, _, _, hNull⟩
  · exact (hNe hSame).elim
  · exact ⟨r, hEnds, a, ha, b, hb, hNe, hNull⟩

end TankConvertor
