import TankConvertor.Sac.Header

/-
  What the four string copies of the header preparation
  leave in the characters of the SAC header.

  Each code is copied with its terminator and the blanks
  that follow repair the terminator, unless the code fills
  its field: the terminator then lies on the first character
  of the next field.

  Key definitions include:
    * `SacHeader.field` and `padded`
    * `TraceNode.Terminated`
    * `CodesInPlace`

  Key theorems include:
    * `char_enrichCode_of_outside` and `field_enrichCode`
    * `codes_in_place_iff`
    * `wideNet_not_in_place`
-/

------------------------------------------------------------
-- Characters And Fields
------------------------------------------------------------

namespace TankConvertor

namespace SacHeader

/- The character at a position of the string area. -/
def char (h : SacHeader) (j : Nat) : UInt8 :=
  if hIn : j < maxString * kLen then h.string ⟨j, hIn⟩ else 0

/- The `K_LEN` characters of the field at `start`. -/
def field (h : SacHeader) (start : Nat) : List UInt8 :=
  (List.range kLen).map (fun i : Nat => h.char (start + i))

theorem char_copyTo_of_inside
    (h : SacHeader)
    {start j : Nat}
    {bs : List UInt8}
    (hLow : start ≤ j)
    (hHigh : j < start + bs.length)
    (hIn : j < maxString * kLen) :
    (h.copyTo start bs).char j = bs.getD (j - start) 0 := by
  unfold char copyTo
  rw [dif_pos hIn]
  exact if_pos ⟨hLow, hHigh⟩

theorem char_copyTo_of_outside
    (h : SacHeader)
    {start j : Nat}
    {bs : List UInt8}
    (hOut : j < start ∨ start + bs.length ≤ j) :
    (h.copyTo start bs).char j = h.char j := by
  unfold char copyTo
  split
  · apply if_neg
    simp only []
    omega
  · rfl

/- Fields are equal when their characters are. -/
theorem field_congr
    {h h' : SacHeader}
    {start : Nat}
    (hSame :
      ∀ j, start ≤ j → j < start + kLen →
        h.char j = h'.char j) :
    h.field start = h'.field start := by
  unfold field
  apply List.map_congr_left
  intro i hi
  have hLt : i < kLen := List.mem_range.mp hi
  exact hSame _ (by omega) (by omega)

end SacHeader

/- A code with the blanks that fill up its field. -/
def padded (code : List UInt8) : List UInt8 :=
  code ++ List.replicate (kLen - code.length) (ch ' ')

theorem length_padded
    {code : List UInt8}
    (hFits : code.length ≤ kLen) :
    (padded code).length = kLen := by
  simp [padded]
  omega

/- A string has no terminator inside, and a blank is none. -/
theorem zero_not_mem_padded
    (code : List UInt8) :
    (0 : UInt8) ∉ padded (cstr code) := by
  intro hZero
  rcases List.mem_append.mp hZero with hCode | hBlank
  · exact zero_not_mem_cstr code hCode
  · have hEq := List.eq_of_mem_replicate hBlank
    revert hEq
    decide

------------------------------------------------------------
-- One Code
------------------------------------------------------------

section

variable (h : SacHeader) (start : Nat) (code : List UInt8)

/- Inside its field stands the code with its blanks. -/
theorem field_enrichCode
    (hFits : (cstr code).length ≤ kLen)
    (hIn : start + kLen ≤ maxString * kLen) :
    (enrichCode h start code).field start =
      padded (cstr code) := by
  have hLength : (List.replicate (kLen - (cstr code).length)
      (ch ' ')).length = kLen - (cstr code).length := by simp
  apply List.ext_getElem?
  intro i
  by_cases hi : i < kLen
  · rw [SacHeader.field, List.getElem?_map,
      List.getElem?_range hi, Option.map_some]
    unfold enrichCode
    by_cases hCode : i < (cstr code).length
    · rw [SacHeader.char_copyTo_of_outside _ (by omega),
        SacHeader.char_copyTo_of_inside _ (by omega)
          (by simp; omega) (by omega)]
      simp [padded, hCode, List.getElem?_append_left]
    · rw [SacHeader.char_copyTo_of_inside _ (by omega)
        (by omega) (by omega)]
      have hRest : i - (cstr code).length <
          kLen - (cstr code).length := by omega
      have hIdx : start + i - (start + (cstr code).length) =
          i - (cstr code).length := by omega
      rw [padded, List.getElem?_append_right (by omega), hIdx,
        List.getD_eq_getElem?_getD]
      simp [hRest]
  · have hLen := length_padded hFits
    rw [List.getElem?_eq_none (by simp [SacHeader.field]; omega),
      List.getElem?_eq_none (by omega)]

/- Nothing changes but the field and its next character. -/
theorem char_enrichCode_of_outside
    {j : Nat}
    (hFits : (cstr code).length ≤ kLen)
    (hOut : j < start ∨ start + kLen ≤ j)
    (hNext : (cstr code).length = kLen → j ≠ start + kLen) :
    (enrichCode h start code).char j = h.char j := by
  unfold enrichCode
  rw [SacHeader.char_copyTo_of_outside _ (by simp; omega),
    SacHeader.char_copyTo_of_outside _ (by simp; omega)]

/- A code that fills its field overruns it by a NUL. -/
theorem char_enrichCode_of_full
    (hFull : (cstr code).length = kLen)
    (hIn : start + kLen < maxString * kLen) :
    (enrichCode h start code).char (start + kLen) = 0 := by
  unfold enrichCode
  rw [SacHeader.char_copyTo_of_outside _ (by simp; omega),
    SacHeader.char_copyTo_of_inside _ (by omega)
      (by simp; omega) hIn]
  simp [hFull]

/- A field that lies apart keeps its characters. -/
theorem field_enrichCode_of_apart
    {other : Nat}
    (hFits : (cstr code).length ≤ kLen)
    (hApart :
      other + kLen ≤ start ∨ start + kLen ≤ other)
    (hNext :
      (cstr code).length = kLen → other ≠ start + kLen) :
    (enrichCode h start code).field other =
      h.field other := by
  apply SacHeader.field_congr
  intro j hLow hHigh
  apply char_enrichCode_of_outside _ _ _ hFits (by omega)
  intro hFull hEq
  have hNe := hNext hFull
  have hLen : kLen = 8 := rfl
  omega

end

------------------------------------------------------------
-- The Four Codes
------------------------------------------------------------

/- The four codes end within their declared sizes. -/
structure TraceNode.Terminated (n : TraceNode) : Prop where
  sta : n.sta.length = 7 ∧ (0 : UInt8) ∈ n.sta
  chan : n.chan.length = 4 ∧ (0 : UInt8) ∈ n.chan
  net : n.net.length = 9 ∧ (0 : UInt8) ∈ n.net
  loc : n.loc.length = 3 ∧ (0 : UInt8) ∈ n.loc

instance (n : TraceNode) : Decidable n.Terminated :=
  decidable_of_iff
    ((n.sta.length = 7 ∧ (0 : UInt8) ∈ n.sta) ∧
      (n.chan.length = 4 ∧ (0 : UInt8) ∈ n.chan) ∧
      (n.net.length = 9 ∧ (0 : UInt8) ∈ n.net) ∧
      (n.loc.length = 3 ∧ (0 : UInt8) ∈ n.loc))
    ⟨fun ⟨hSta, hChan, hNet, hLoc⟩ => ⟨hSta, hChan, hNet, hLoc⟩,
      fun h => ⟨h.sta, h.chan, h.net, h.loc⟩⟩

/- A field holds a code, blank padded, and no NUL. -/
structure FieldHolds
    (h : SacHeader)
    (start : Nat)
    (code : List UInt8) : Prop where
  blanks : h.field start = padded code
  noNul : (0 : UInt8) ∉ h.field start

/- Positions of the four fields the codes are written to. -/
def CodeArea (j : Nat) : Prop :=
  ∃ start ∈
      [SacField.kstnm, SacField.kcmpnm, SacField.knetwk,
        SacField.khole],
    start ≤ j ∧ j < start + kLen

/-
  Each code in its field, all other characters as
  `init_header` and `enrich_header_default` left them.
-/
structure CodesInPlace
    (n : TraceNode)
    (h : SacHeader) : Prop where
  kstnm : FieldHolds h SacField.kstnm (cstr n.sta)
  kcmpnm : FieldHolds h SacField.kcmpnm (cstr n.chan)
  knetwk : FieldHolds h SacField.knetwk (cstr n.net)
  khole : FieldHolds h SacField.khole (cstr n.loc)
  others :
    ∀ j, j < maxString * kLen → ¬ CodeArea j →
      h.char j = (enrichHeaderDefault initHeader).char j

/- Lengths of codes that end within their sizes. -/
theorem TraceNode.Terminated.lengths
    {n : TraceNode}
    (hTerm : n.Terminated) :
    (cstr n.sta).length ≤ 6 ∧ (cstr n.chan).length ≤ 3 ∧
      (cstr n.net).length ≤ 8 ∧ (cstr n.loc).length ≤ 2 := by
  have hSta := length_cstr_lt hTerm.sta.2
  have hChan := length_cstr_lt hTerm.chan.2
  have hNet := length_cstr_lt hTerm.net.2
  have hLoc := length_cstr_lt hTerm.loc.2
  rw [hTerm.sta.1] at hSta
  rw [hTerm.chan.1] at hChan
  rw [hTerm.net.1] at hNet
  rw [hTerm.loc.1] at hLoc
  omega

/- Each copy reads the node's bytes up to the code's end. -/
theorem TraceNode.Terminated.strings
    {n : TraceNode}
    (hTerm : n.Terminated) :
    cstr n.fromSta = cstr n.sta ∧
      cstr n.fromChan = cstr n.chan ∧
      cstr n.fromNet = cstr n.net ∧
      cstr n.fromLoc = cstr n.loc :=
  ⟨cstr_append_of_mem hTerm.sta.2 _,
    cstr_append_of_mem hTerm.chan.2 _,
    cstr_append_of_mem hTerm.net.2 _, rfl⟩

theorem TraceNode.Terminated.lengths_copied
    {n : TraceNode}
    (hTerm : n.Terminated) :
    (cstr n.fromSta).length ≤ 6 ∧
      (cstr n.fromChan).length ≤ 3 ∧
      (cstr n.fromNet).length ≤ 8 ∧
      (cstr n.fromLoc).length ≤ 2 := by
  rcases hTerm.strings with ⟨eSta, eChan, eNet, eLoc⟩
  rw [eSta, eChan, eNet, eLoc]
  exact hTerm.lengths

/- What stands in a field that holds a padded string. -/
theorem fieldHolds_of_eq
    {h : SacHeader}
    {start : Nat}
    {code : List UInt8}
    (hField : h.field start = padded (cstr code)) :
    FieldHolds h start (cstr code) := by
  refine ⟨hField, ?_⟩
  rw [hField]
  exact zero_not_mem_padded code

/- The orientation is no character of the header. -/
theorem field_sacHeaderOf
    (n : TraceNode)
    (start : Nat) :
    (sacHeaderOf n).field start =
      (enrichCodes (enrichHeaderDefault initHeader) n).field
        start := rfl

/- The four fields hold their codes in any case. -/
theorem fields_sacHeaderOf
    {n : TraceNode}
    (hTerm : n.Terminated) :
    FieldHolds (sacHeaderOf n) SacField.kstnm (cstr n.sta) ∧
    FieldHolds (sacHeaderOf n) SacField.kcmpnm (cstr n.chan) ∧
    FieldHolds (sacHeaderOf n) SacField.knetwk (cstr n.net) ∧
    FieldHolds (sacHeaderOf n) SacField.khole (cstr n.loc) := by
  rcases hTerm.lengths_copied with ⟨hSta, hChan, hNet, hLoc⟩
  rcases hTerm.strings with ⟨eSta, eChan, eNet, eLoc⟩
  have hLen : kLen = 8 := rfl
  have hStaIn : 0 + kLen ≤ maxString * kLen := by decide
  have hChanIn : 160 + kLen ≤ maxString * kLen := by decide
  have hNetIn : 168 + kLen ≤ maxString * kLen := by decide
  have hLocIn : 24 + kLen ≤ maxString * kLen := by decide
  refine ⟨?_, ?_, ?_, ?_⟩
  · rw [← eSta]
    apply fieldHolds_of_eq
    rw [field_sacHeaderOf, enrichCodes, SacField.kstnm,
      SacField.kcmpnm, SacField.knetwk, SacField.khole,
      field_enrichCode_of_apart _ _ _ (by omega) (by omega)
        (by omega),
      field_enrichCode_of_apart _ _ _ (by omega) (by omega)
        (by omega),
      field_enrichCode_of_apart _ _ _ (by omega) (by omega)
        (by omega),
      field_enrichCode _ _ _ (by omega) hStaIn]
  · rw [← eChan]
    apply fieldHolds_of_eq
    rw [field_sacHeaderOf, enrichCodes, SacField.kstnm,
      SacField.kcmpnm, SacField.knetwk, SacField.khole,
      field_enrichCode_of_apart _ _ _ (by omega) (by omega)
        (by omega),
      field_enrichCode_of_apart _ _ _ (by omega) (by omega)
        (by omega),
      field_enrichCode _ _ _ (by omega) hChanIn]
  · rw [← eNet]
    apply fieldHolds_of_eq
    rw [field_sacHeaderOf, enrichCodes, SacField.kstnm,
      SacField.kcmpnm, SacField.knetwk, SacField.khole,
      field_enrichCode_of_apart _ _ _ (by omega) (by omega)
        (by omega),
      field_enrichCode _ _ _ (by omega) hNetIn]
  · rw [← eLoc]
    apply fieldHolds_of_eq
    rw [field_sacHeaderOf, enrichCodes, SacField.kstnm,
      SacField.kcmpnm, SacField.knetwk, SacField.khole,
      field_enrichCode _ _ _ (by omega) hLocIn]

/- A position outside the four fields, spelled out. -/
theorem codeArea_iff
    (j : Nat) :
    CodeArea j ↔
      j < 8 ∨ (160 ≤ j ∧ j < 176) ∨ (24 ≤ j ∧ j < 32) := by
  have hLen : kLen = 8 := rfl
  simp only [CodeArea, SacField.kstnm, SacField.kcmpnm,
    SacField.knetwk, SacField.khole, List.mem_cons,
    List.not_mem_nil, or_false, exists_eq_or_imp,
    exists_eq_left, hLen]
  omega

/-
  The copies touch no character elsewhere, but for the one
  that follows the network's field when its code fills it.
-/
theorem char_sacHeaderOf_of_outside
    {n : TraceNode}
    (hTerm : n.Terminated)
    {j : Nat}
    (hOut : ¬ CodeArea j)
    (hNext : (cstr n.net).length = kLen → j ≠ 176) :
    (sacHeaderOf n).char j =
      (enrichHeaderDefault initHeader).char j := by
  rcases hTerm.lengths_copied with ⟨hSta, hChan, hNet, hLoc⟩
  rcases hTerm.strings with ⟨_, _, eNet, _⟩
  rw [codeArea_iff] at hOut
  have hLen : kLen = 8 := rfl
  rw [← eNet] at hNext
  change
    (enrichCodes (enrichHeaderDefault initHeader) n).char j =
      _
  rw [enrichCodes, SacField.kstnm, SacField.kcmpnm,
    SacField.knetwk, SacField.khole,
    char_enrichCode_of_outside _ _ _ (by omega) (by omega)
      (by omega),
    char_enrichCode_of_outside _ _ _ (by omega) (by omega)
      (by omega),
    char_enrichCode_of_outside _ _ _ (by omega) (by omega)
      (by omega),
    char_enrichCode_of_outside _ _ _ (by omega) (by omega)
      (by omega)]

/- There stands a NUL then, in place of a minus sign. -/
theorem char_sacHeaderOf_of_full
    {n : TraceNode}
    (hTerm : n.Terminated)
    (hFull : (cstr n.net).length = kLen) :
    (sacHeaderOf n).char 176 = 0 := by
  rcases hTerm.lengths_copied with ⟨_, _, _, hLoc⟩
  rcases hTerm.strings with ⟨_, _, eNet, _⟩
  have hLen : kLen = 8 := rfl
  rw [← eNet] at hFull
  change
    (enrichCodes (enrichHeaderDefault initHeader) n).char 176 =
      0
  rw [enrichCodes, SacField.khole,
    char_enrichCode_of_outside _ _ _ (by omega) (by omega)
      (by omega)]
  exact char_enrichCode_of_full _ SacField.knetwk _ hFull
    (by decide)

/-
  The codes stay in their own fields exactly when the
  network code leaves its field room for a blank.
-/
theorem codes_in_place_iff
    (n : TraceNode)
    (hTerm : n.Terminated) :
    CodesInPlace n (sacHeaderOf n) ↔
      (cstr n.net).length < kLen := by
  constructor
  · intro hPlace
    by_contra hLong
    have hFull : (cstr n.net).length = kLen :=
      le_antisymm hTerm.lengths.2.2.1 (not_lt.mp hLong)
    have hOther := hPlace.others 176 (by decide) (by
      rw [codeArea_iff]
      omega)
    rw [char_sacHeaderOf_of_full hTerm hFull] at hOther
    revert hOther
    decide
  · intro hShort
    rcases fields_sacHeaderOf hTerm with
      ⟨hSta, hChan, hNet, hLoc⟩
    refine ⟨hSta, hChan, hNet, hLoc, ?_⟩
    intro j _ hOut
    exact char_sacHeaderOf_of_outside hTerm hOut (by omega)

/- A node with a given network code. -/
def nodeOfNet (net : List UInt8) : TraceNode :=
  newNode
    { sta := ['S', 'T', 'A'].map ch ++ List.replicate 4 0
      chan := ['H', 'H', 'Z'].map ch ++ [0]
      net := net
      loc := [ch '-', ch '-', 0]
      ntbuf := 0
      maxtbuf := maxNumTbuf
      tlist := [] }

/- A network code of two characters keeps to its field. -/
theorem codes_in_place_short :
    CodesInPlace
      (nodeOfNet ([ch 'T', ch 'W'] ++ List.replicate 7 0))
      (sacHeaderOf
        (nodeOfNet
          ([ch 'T', ch 'W'] ++ List.replicate 7 0))) :=
  (codes_in_place_iff _
    ⟨by decide, by decide, by decide, by decide⟩).mpr
    (by decide)

/- One of eight characters does not. -/
theorem wideNet_not_in_place :
    (nodeOfNet (List.replicate 8 (ch 'N') ++ [0])).Terminated ∧
      ¬ CodesInPlace
        (nodeOfNet (List.replicate 8 (ch 'N') ++ [0]))
        (sacHeaderOf
          (nodeOfNet (List.replicate 8 (ch 'N') ++ [0]))) := by
  have hTerm :
      (nodeOfNet
        (List.replicate 8 (ch 'N') ++ [0])).Terminated :=
    ⟨by decide, by decide, by decide, by decide⟩
  refine ⟨hTerm, ?_⟩
  intro hPlace
  have hOther := hPlace.others 176 (by decide) (by
    rw [codeArea_iff]
    omega)
  rw [char_sacHeaderOf_of_full hTerm (by decide)] at hOther
  revert hOther
  decide

end TankConvertor
