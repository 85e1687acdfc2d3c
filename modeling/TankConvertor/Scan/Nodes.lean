import TankConvertor.Scan.Model

/-
  The key that orders trace nodes, and what one iteration
  does to a node's list.

  Key definitions include:
    * `scnl`
    * `NodeOk`
    * `Keeps`

  Key theorems include:
    * `comparesBy_compareSCNL`
    * `nodeOk_recordTbuf`
    * `stored_recordTbuf`
    * `foot_cases`
    * `passMessage_perm`
    * `ScanOk.of_foot`
-/

------------------------------------------------------------
-- Keys
------------------------------------------------------------

namespace TankConvertor

open Trace2Header

/- Four strings, compared one after the other. -/
abbrev ScnlKey :=
  List Nat ×ₗ List Nat ×ₗ List Nat ×ₗ List Nat

/- The strings that begin at the node's four codes. -/
def scnl (n : TraceNode) : ScnlKey :=
  toLex (strKey n.fromSta, toLex (strKey n.fromChan,
    toLex (strKey n.fromNet, strKey n.fromLoc)))

/- Keys agree when all four strings do. -/
theorem scnl_eq_iff
    (a b : TraceNode) :
    scnl a = scnl b ↔
      cstr a.fromSta = cstr b.fromSta ∧
        cstr a.fromChan = cstr b.fromChan ∧
        cstr a.fromNet = cstr b.fromNet ∧
        cstr a.fromLoc = cstr b.fromLoc := by
  unfold scnl
  simp only [toLex_inj, Prod.mk.injEq, strKey_inj]

/- `compare_SCNL` orders nodes by their key. -/
theorem comparesBy_compareSCNL :
    ComparesBy compareSCNL scnl where
  neg_iff := by
    intro a b
    unfold compareSCNL scnl
    simp only [Prod.Lex.toLex_lt_toLex, strKey_inj]
    have hSta := strcmp_eq_zero_iff a.fromSta b.fromSta
    have hChan := strcmp_eq_zero_iff a.fromChan b.fromChan
    have hNet := strcmp_eq_zero_iff a.fromNet b.fromNet
    have hSta' := strcmp_lt_zero_iff a.fromSta b.fromSta
    have hChan' := strcmp_lt_zero_iff a.fromChan b.fromChan
    have hNet' := strcmp_lt_zero_iff a.fromNet b.fromNet
    have hLoc' := strcmp_lt_zero_iff a.fromLoc b.fromLoc
    rw [← hSta, ← hChan, ← hNet, ← hSta', ← hChan',
      ← hNet', ← hLoc']
    split_ifs <;> omega
  zero_iff := by
    intro a b
    rw [scnl_eq_iff]
    unfold compareSCNL
    have hSta := strcmp_eq_zero_iff a.fromSta b.fromSta
    have hChan := strcmp_eq_zero_iff a.fromChan b.fromChan
    have hNet := strcmp_eq_zero_iff a.fromNet b.fromNet
    have hLoc := strcmp_eq_zero_iff a.fromLoc b.fromLoc
    rw [← hSta, ← hChan, ← hNet, ← hLoc]
    simp only []
    split_ifs <;> omega

------------------------------------------------------------
-- Slots Of A Node
------------------------------------------------------------

/-
  The list of a node: one slot is free, every slot that is
  counted exists, and the number of slots is 4096 doubled
  some number of times.
-/
structure NodeOk (n : TraceNode) : Prop where
  free : n.ntbuf < n.maxtbuf
  slots : n.tlist.length = n.maxtbuf
  doubled : ∃ j, j ≤ 19 ∧ n.maxtbuf = 4096 * 2 ^ j

theorem nodeOk_newNode
    (m : ByteMem)
    (p : Int) :
    NodeOk (newNode (tkeyOf m p)) where
  free := by
    change 0 < 4096
    omega
  slots := by simp [newNode]
  doubled := ⟨0, by omega, rfl⟩

namespace NodeOk

variable {n : TraceNode}

/- The number of slots is a multiple of 4096 up to `2^31`. -/
theorem maxtbuf_le
    (h : NodeOk n) :
    n.maxtbuf ≤ 2 ^ 31 := by
  rcases h.doubled with ⟨j, hj, hMax⟩
  rw [hMax]
  calc
    4096 * 2 ^ j ≤ 4096 * 2 ^ 19 := by gcongr; omega
    _ = 2 ^ 31 := by norm_num

theorem maxtbuf_pos
    (h : NodeOk n) :
    0 < n.maxtbuf :=
  Nat.zero_lt_of_lt h.free

end NodeOk

/- Writing the first free slot leaves the counted ones. -/
theorem stored_set
    (n : TraceNode)
    (e : TBuf) :
    (n.tlist.set n.ntbuf e).take n.ntbuf = n.stored := by
  unfold TraceNode.stored
  rw [List.take_set_of_le (le_refl _)]

/- Counting the entry just written adds it at the end. -/
theorem take_succ_set
    {n : TraceNode}
    (hSlot : n.ntbuf < n.tlist.length)
    (e : TBuf) :
    (n.tlist.set n.ntbuf e).take (n.ntbuf + 1) =
      n.stored ++ [e] := by
  rw [List.take_add_one, stored_set]
  simp [hSlot]

/- Growing a list keeps its counted entries. -/
theorem stored_growTlist
    {n : TraceNode}
    (hSlots : n.tlist.length = n.maxtbuf)
    (hMax : n.maxtbuf ≤ 2 ^ 31)
    (hCount : n.ntbuf ≤ n.maxtbuf)
    (hGrown : reallocFailed (growTlist n) = false) :
    (growTlist n).stored = n.stored := by
  unfold growTlist at hGrown ⊢
  split at hGrown <;> rename_i hFull
  · rw [if_pos hFull]
    have hEq : n.ntbuf = n.maxtbuf := by omega
    simp only [reallocFailed, decide_eq_false_iff_not]
      at hGrown
    unfold TraceNode.stored
    simp only []
    rw [List.take_take]
    have hLe : n.ntbuf ≤ n.maxtbuf * 2 % 2 ^ 32 := by
      omega
    rw [Nat.min_eq_left hLe]
    exact List.take_append_of_le_length (by omega)
  · rw [if_neg hFull]

/- Growing keeps the shape of the list. -/
theorem nodeOk_growTlist
    {n : TraceNode}
    (hSlots : n.tlist.length = n.maxtbuf)
    (hDoubled : ∃ j, j ≤ 19 ∧ n.maxtbuf = 4096 * 2 ^ j)
    (hCount : n.ntbuf ≤ n.maxtbuf)
    (hGrown : reallocFailed (growTlist n) = false) :
    NodeOk (growTlist n) := by
  rcases hDoubled with ⟨j, hj, hMax⟩
  unfold growTlist at hGrown ⊢
  split at hGrown <;> rename_i hFull
  · rw [if_pos hFull]
    simp only [reallocFailed, decide_eq_false_iff_not]
      at hGrown
    have hjNe : j ≠ 19 := by
      rintro rfl
      rw [hMax] at hGrown
      norm_num at hGrown
    have hjLt : j + 1 ≤ 19 := by omega
    have hBound : 4096 * 2 ^ (j + 1) ≤ 2 ^ 31 := by
      calc
        4096 * 2 ^ (j + 1) ≤ 4096 * 2 ^ 19 := by gcongr; omega
        _ = 2 ^ 31 := by norm_num
    have hNew :
        n.maxtbuf * 2 % 2 ^ 32 = 4096 * 2 ^ (j + 1) := by
      rw [hMax, pow_succ]
      rw [pow_succ] at hBound
      omega
    have hPos : 0 < n.maxtbuf := by
      rw [hMax]
      positivity
    have hTwice : n.maxtbuf * 2 % 2 ^ 32 = n.maxtbuf * 2 := by
      rw [hNew, hMax, pow_succ]
      ring
    refine ⟨?_, ?_, ⟨j + 1, hjLt, hNew⟩⟩
    · simp only []
      omega
    · simp only [List.length_take, List.length_append,
        List.length_replicate]
      omega
  · rw [if_neg hFull]
    exact ⟨by omega, hSlots, ⟨j, hj, hMax⟩⟩

/- The entry is kept: accepted, and not too large. -/
def Keeps (rc : Int) (e : TBuf) : Prop :=
  rc = 0 ∧ e.size ≤ maxTracebufSiz

instance (rc : Int) (e : TBuf) : Decidable (Keeps rc e) := by
  unfold Keeps
  infer_instance

/-
  `recordTbuf`, as the growth of a node that may have been
  counted up.
-/
theorem recordTbuf_eq
    (rc : Int)
    (e : TBuf)
    {n : TraceNode}
    (hOk : NodeOk n) :
    recordTbuf rc e n =
      if Keeps rc e then
        growTlist
          { n with
            tlist := n.tlist.set n.ntbuf e
            ntbuf := n.ntbuf + 1 }
      else
        { n with tlist := n.tlist.set n.ntbuf e } := by
  have hLt := hOk.free
  have hMax := hOk.maxtbuf_le
  have hMod : (n.ntbuf + 1) % 2 ^ 32 = n.ntbuf + 1 := by
    omega
  have hFree : ¬ n.maxtbuf ≤ n.ntbuf := by omega
  unfold recordTbuf
  by_cases hLarge : maxTracebufSiz < e.size
  · have hDrop : ¬ Keeps rc e := fun h => by
      have hSmall := h.2
      omega
    rw [if_neg hDrop]
    simp only [if_pos hLarge]
  · by_cases hRc : rc = 0
    · have hKeep : Keeps rc e := ⟨hRc, by omega⟩
      rw [if_pos hKeep]
      simp only [if_neg hLarge, if_pos hRc, hMod]
    · have hDrop : ¬ Keeps rc e := fun h => hRc h.1
      rw [if_neg hDrop]
      simp only [if_neg hLarge, if_neg hRc]
      unfold growTlist
      rw [if_neg hFree]

/- Recording an entry keeps the shape of the node. -/
theorem nodeOk_recordTbuf
    {rc : Int}
    {e : TBuf}
    {n : TraceNode}
    (hOk : NodeOk n)
    (hDone : reallocFailed (recordTbuf rc e n) = false) :
    NodeOk (recordTbuf rc e n) := by
  rw [recordTbuf_eq rc e hOk] at hDone ⊢
  have hFree := hOk.free
  split at hDone <;> rename_i hKeeps
  · rw [if_pos hKeeps]
    refine nodeOk_growTlist ?_ hOk.doubled ?_ hDone
    · simpa using hOk.slots
    · simp only []
      omega
  · rw [if_neg hKeeps]
    exact ⟨hFree, by simpa using hOk.slots, hOk.doubled⟩

/- An entry that is not kept needs no more slots. -/
theorem reallocFailed_of_not_keeps
    {rc : Int}
    {e : TBuf}
    {n : TraceNode}
    (hOk : NodeOk n)
    (hNot : ¬ Keeps rc e) :
    reallocFailed (recordTbuf rc e n) = false := by
  have hPos := hOk.maxtbuf_pos
  rw [recordTbuf_eq rc e hOk, if_neg hNot]
  unfold reallocFailed
  rw [decide_eq_false_iff_not]
  simp only
  omega

/- The counted entries grow by the entry that is kept. -/
theorem stored_recordTbuf
    {rc : Int}
    {e : TBuf}
    {n : TraceNode}
    (hOk : NodeOk n)
    (hDone : reallocFailed (recordTbuf rc e n) = false) :
    (recordTbuf rc e n).stored =
      if Keeps rc e then n.stored ++ [e] else n.stored := by
  rw [recordTbuf_eq rc e hOk] at hDone ⊢
  have hFree := hOk.free
  have hSlots := hOk.slots
  by_cases hKeeps : Keeps rc e
  · rw [if_pos hKeeps] at hDone
    rw [if_pos hKeeps, if_pos hKeeps]
    have hCount : n.ntbuf + 1 ≤ n.maxtbuf := hFree
    let counted : TraceNode :=
      { n with
        tlist := n.tlist.set n.ntbuf e
        ntbuf := n.ntbuf + 1 }
    have hGrow : (growTlist counted).stored = counted.stored :=
      stored_growTlist (by simpa [counted] using hSlots)
        hOk.maxtbuf_le hCount hDone
    rw [hGrow]
    exact take_succ_set (by omega) e
  · rw [if_neg hKeeps, if_neg hKeeps]
    exact stored_set n e

theorem length_stored
    {n : TraceNode}
    (hOk : NodeOk n) :
    n.stored.length = n.ntbuf := by
  have hFree := hOk.free
  unfold TraceNode.stored
  rw [List.length_take, hOk.slots]
  omega

/- Growth succeeds while fewer than `2^31` are counted. -/
theorem reallocFailed_of_few
    (rc : Int)
    (e : TBuf)
    {n : TraceNode}
    (hOk : NodeOk n)
    (hFew : n.ntbuf + 1 < 2 ^ 31) :
    reallocFailed (recordTbuf rc e n) = false := by
  have hPos := hOk.maxtbuf_pos
  have hMax := hOk.maxtbuf_le
  unfold reallocFailed
  rw [recordTbuf_eq rc e hOk, decide_eq_false_iff_not]
  split
  · unfold growTlist
    split
    · rename_i hFull
      simp only [] at hFull ⊢
      omega
    · simp only []
      omega
  · simp only []
    omega

/- It fails for the entry that makes `2^31`. -/
theorem reallocFailed_of_full
    {rc : Int}
    {e : TBuf}
    {n : TraceNode}
    (hOk : NodeOk n)
    (hKeeps : Keeps rc e)
    (hFull : n.ntbuf + 1 = 2 ^ 31) :
    reallocFailed (recordTbuf rc e n) = true := by
  have hFree := hOk.free
  have hMax := hOk.maxtbuf_le
  have hAll : n.maxtbuf = 2 ^ 31 := by omega
  unfold reallocFailed
  rw [recordTbuf_eq rc e hOk, if_pos hKeeps,
    decide_eq_true_iff]
  unfold growTlist
  rw [if_pos (by simp only []; omega)]
  simp only []
  omega

theorem codes_growTlist
    (n : TraceNode) :
    (growTlist n).sta = n.sta ∧ (growTlist n).chan = n.chan ∧
      (growTlist n).net = n.net ∧
      (growTlist n).loc = n.loc := by
  unfold growTlist
  split <;> exact ⟨rfl, rfl, rfl, rfl⟩

/- Recording an entry does not touch the codes. -/
theorem codes_recordTbuf
    (rc : Int)
    (e : TBuf)
    (n : TraceNode) :
    (recordTbuf rc e n).sta = n.sta ∧
      (recordTbuf rc e n).chan = n.chan ∧
      (recordTbuf rc e n).net = n.net ∧
      (recordTbuf rc e n).loc = n.loc := by
  unfold recordTbuf
  by_cases hLarge : maxTracebufSiz < e.size
  · simp only [if_pos hLarge, and_self]
  · simp only [if_neg hLarge]
    by_cases hRc : rc = 0
    · simp only [if_pos hRc]
      exact codes_growTlist _
    · simp only [if_neg hRc]
      exact codes_growTlist _

@[simp] theorem scnl_recordTbuf
    (rc : Int)
    (e : TBuf)
    (n : TraceNode) :
    scnl (recordTbuf rc e n) = scnl n := by
  rcases codes_recordTbuf rc e n with ⟨h₁, h₂, h₃, h₄⟩
  simp only [scnl, TraceNode.fromSta, TraceNode.fromChan,
    TraceNode.fromNet, TraceNode.fromLoc, h₁, h₂, h₃, h₄]

@[simp] theorem scnl_newNode
    (tkey : TraceNode) :
    scnl (newNode tkey) = scnl tkey := rfl

------------------------------------------------------------
-- One Iteration
------------------------------------------------------------

/- Return code of the swap routine at the cursor. -/
def swapCode [Rounding] (host : ByteOrder) (s : ScanState) : Int :=
  (swapWavemsg2Makelocal host s.mem s.tankbyte).1

/- Memory the swap routine leaves at the cursor. -/
def swapMem [Rounding] (host : ByteOrder) (s : ScanState) : ByteMem :=
  (swapWavemsg2Makelocal host s.mem s.tankbyte).2

/- The state in which a message not refused is handled. -/
def swapped [Rounding] (host : ByteOrder) (s : ScanState) : ScanState :=
  { s with
    mem := swapMem host s
    skipbyte :=
      if swapCode host s = 0 then 0 else s.skipbyte }

/- The state after a refused message, one byte on. -/
def shifted [Rounding] (host : ByteOrder) (s : ScanState) : ScanState :=
  { s with
    mem := swapMem host s
    tankbyte := s.tankbyte + 1
    skipbyte := s.skipbyte + 1 }

/- The trace of the message at the cursor. -/
def tnodeAt [Rounding] (host : ByteOrder) (s : ScanState) : TraceNode :=
  tnodeFor s.root (tkeyOf (swapMem host s) s.tankbyte)

/- The entry made for the message at the cursor. -/
def tbufAt [Rounding] (host : ByteOrder) (s : ScanState) : TBuf :=
  tbufOf host (swapMem host s) s.tankbyte

theorem scanBody_eq
    [Rounding]
    (host : ByteOrder)
    (fsize : Nat)
    (s : ScanState) :
    scanBody host fsize s =
      if swapCode host s = -1 then
        if s.tankbyte + 1 < fsize then
          .foot (shifted host s)
        else
          .leave (scanFinish
            { s with
              mem := swapMem host s
              tankbyte := s.tankbyte + 1 })
      else
        scanMessage host (swapCode host s) (swapped host s) :=
  rfl

/- The foot of the loop is reached in one of two ways. -/
theorem foot_cases
    [Rounding]
    {host : ByteOrder}
    {fsize : Nat}
    {s s' : ScanState}
    (hFoot : scanBody host fsize s = .foot s') :
    (swapCode host s = -1 ∧
        s.tankbyte + 1 < fsize ∧ s' = shifted host s) ∨
      (swapCode host s ≠ -1 ∧
        reallocFailed
          (recordTbuf (swapCode host s) (tbufAt host s)
            (tnodeAt host s)) = false ∧
        s' =
          passMessage host (swapCode host s)
            (swapped host s)) := by
  rw [scanBody_eq] at hFoot
  by_cases hRc : swapCode host s = -1
  · rw [if_pos hRc] at hFoot
    by_cases hLt : s.tankbyte + 1 < fsize
    · rw [if_pos hLt] at hFoot
      cases hFoot
      exact Or.inl ⟨hRc, hLt, rfl⟩
    · rw [if_neg hLt] at hFoot
      cases hFoot
  · rw [if_neg hRc] at hFoot
    refine Or.inr ⟨hRc, ?_⟩
    simp only [scanMessage] at hFoot
    split at hFoot
    · cases hFoot
    · rename_i hDone
      cases hFoot
      exact ⟨(Bool.not_eq_true _).mp hDone, rfl⟩

/- It is the second when the trace has room. -/
theorem foot_of_done
    [Rounding]
    {host : ByteOrder}
    (fsize : Nat)
    {s : ScanState}
    {rc : Int}
    (hCode : swapCode host s = rc)
    (hRc : rc ≠ -1)
    (hDone :
      reallocFailed
        (recordTbuf rc (tbufAt host s) (tnodeAt host s)) =
          false) :
    scanBody host fsize s =
      .foot (passMessage host rc (swapped host s)) := by
  rw [scanBody_eq, hCode, if_neg hRc]
  unfold scanMessage
  apply if_neg
  change
    ¬ reallocFailed
      (recordTbuf rc (tbufAt host s) (tnodeAt host s)) = true
  rw [hDone]
  exact Bool.false_ne_true

/- The list of a new node need not grow. -/
theorem reallocFailed_newNode
    (rc : Int)
    (e : TBuf)
    (m : ByteMem)
    (p : Int) :
    reallocFailed (recordTbuf rc e (newNode (tkeyOf m p))) =
      false := by
  rw [recordTbuf_eq rc e (nodeOk_newNode m p)]
  split
  · unfold growTlist
    rw [if_neg (by change ¬ 4096 ≤ 0 + 1; decide)]
    rfl
  · rfl

/- The first message of a tank meets no obstacle. -/
theorem foot_of_leaf
    [Rounding]
    {host : ByteOrder}
    (fsize : Nat)
    {s : ScanState}
    (hRoot : s.root = .leaf)
    (hRc : swapCode host s ≠ -1) :
    scanBody host fsize s =
      .foot
        (passMessage host (swapCode host s)
          (swapped host s)) := by
  have hNew :
      tnodeAt host s =
        newNode (tkeyOf (swapMem host s) s.tankbyte) := by
    unfold tnodeAt
    rw [hRoot]
    rfl
  apply foot_of_done fsize rfl hRc
  rw [hNew, reallocFailed_newNode]

theorem trace_of_first
    [Rounding]
    {host : ByteOrder}
    (fsize : Nat)
    {m : ByteMem}
    (hRc : swapCode host (scanInit m) ≠ -1) :
    (scanLoop host fsize).Trace (scanInit m) [scanInit m]
      (passMessage host (swapCode host (scanInit m))
        (swapped host (scanInit m))) :=
  DoLoop.Trace.entry.step (fun h => (h rfl).elim)
    (foot_of_leaf fsize rfl hRc)

/-
  The trace of a key in a tree with the nodes `old`: it is
  one of them, or it is new and makes one more.
-/
def TnodeAmong
    (tkey tnode : TraceNode)
    (known : Bool)
    (old rest : List TraceNode) : Prop :=
  (known = true ∧ scnl tnode = scnl tkey ∧
      old.Perm (tnode :: rest)) ∨
    (known = false ∧ tnode = newNode tkey ∧
      (∀ v ∈ old, scnl v ≠ scnl tkey) ∧ old.Perm rest)

/-
  Up to order, the nodes are those before with the trace of
  the message replaced, or with that trace added.
-/
theorem passMessage_perm
    (host : ByteOrder)
    (rc : Int)
    {s : ScanState}
    (hOrd : s.root.Ordered scnl) :
    let tkey := tkeyOf s.mem s.tankbyte
    let tnode := tnodeFor s.root tkey
    ∃ rest,
      (passMessage host rc s).root.twalk.Perm
          (recordTbuf rc (tbufOf host s.mem s.tankbyte) tnode ::
            rest) ∧
        TnodeAmong tkey tnode
          (s.root.tfind compareSCNL tkey).isSome
          s.root.twalk rest := by
  have hCmp := comparesBy_compareSCNL
  intro tkey tnode
  cases hFind : s.root.tfind compareSCNL tkey with
  | some v =>
      have hTnode : tnode = v := by
        simp only [tnode, tnodeFor, hFind, Option.getD_some]
      rcases SearchTree.tfind_eq_some hCmp hFind with
        ⟨hMem, hKey⟩
      rcases SearchTree.twalk_update_perm hCmp hOrd hMem hKey
        with ⟨rest, hOld, hNew⟩
      refine ⟨rest, ?_, Or.inl ⟨rfl, ?_, ?_⟩⟩
      · simp only [passMessage]
        rw [if_pos (by simp only [tkey] at hFind; rw [hFind]; rfl),
          hTnode]
        exact hNew
      · rw [hTnode]
        exact hKey
      · rw [hTnode]
        exact hOld
  | none =>
      have hTnode : tnode = newNode tkey := by
        simp only [tnode, tnodeFor, hFind, Option.getD_none]
      have hAbsent :
          ∀ v ∈ s.root.twalk,
            scnl v ≠ scnl (newNode tkey) := by
        rw [scnl_newNode]
        exact (SearchTree.tfind_eq_none_iff hCmp hOrd).mp hFind
      have hInsert :=
        SearchTree.twalk_tsearch_perm hCmp hAbsent
      have hMem :
          newNode tkey ∈
            (s.root.tsearch compareSCNL (newNode tkey)).twalk :=
        hInsert.mem_iff.mpr (by simp)
      rcases SearchTree.twalk_update_perm hCmp
          (SearchTree.ordered_tsearch hCmp hOrd hAbsent) hMem
          (scnl_newNode tkey) with
        ⟨rest, hOld, hNew⟩
      refine ⟨rest, ?_, Or.inr ⟨rfl, hTnode, ?_, ?_⟩⟩
      · simp only [passMessage]
        rw [if_neg (by simp only [tkey] at hFind; simp [hFind]),
          hTnode]
        exact hNew
      · exact hAbsent
      · exact (List.perm_cons _).mp (hInsert.symm.trans hOld)

/- A node of the tree comes from one before, or is new. -/
theorem mem_twalk_passMessage
    {host : ByteOrder}
    {rc : Int}
    {s : ScanState}
    (hOrd : s.root.Ordered scnl)
    {n : TraceNode}
    (hn : n ∈ (passMessage host rc s).root.twalk) :
    n ∈ s.root.twalk ∨
      n = recordTbuf rc (tbufOf host s.mem s.tankbyte)
        (tnodeFor s.root (tkeyOf s.mem s.tankbyte)) := by
  rcases passMessage_perm host rc hOrd with
    ⟨rest, hNew, hOld⟩
  rcases List.mem_cons.mp (hNew.mem_iff.mp hn) with
    hEq | hRest
  · exact Or.inr hEq
  · left
    rcases hOld with ⟨_, _, hOld⟩ | ⟨_, _, _, hOld⟩
    · exact hOld.mem_iff.mpr (List.mem_cons_of_mem _ hRest)
    · exact hOld.mem_iff.mpr hRest

/- The tree stays ordered. -/
theorem ordered_passMessage
    {host : ByteOrder}
    {rc : Int}
    {s : ScanState}
    (hOrd : s.root.Ordered scnl) :
    (passMessage host rc s).root.Ordered scnl := by
  have hCmp := comparesBy_compareSCNL
  simp only [passMessage]
  apply SearchTree.ordered_update hCmp _
    (fun n => scnl_recordTbuf _ _ n)
  split
  · exact hOrd
  · rename_i hKnown
    have hFind :
        s.root.tfind compareSCNL
          (tkeyOf s.mem s.tankbyte) = none := by
      simpa using hKnown
    have hAbsent :=
      (SearchTree.tfind_eq_none_iff hCmp hOrd).mp hFind
    exact SearchTree.ordered_tsearch hCmp hOrd hAbsent

/-
  What holds of the tree wherever the loop stands: it is
  ordered and every list in it is in shape.
-/
structure ScanOk (s : ScanState) : Prop where
  ordered : s.root.Ordered scnl
  nodes : ∀ n ∈ s.root.twalk, NodeOk n

namespace ScanOk

variable {s : ScanState}

theorem tnodeFor
    (hOk : ScanOk s)
    (m : ByteMem)
    (p : Int) :
    NodeOk (tnodeFor s.root (tkeyOf m p)) := by
  unfold TankConvertor.tnodeFor
  cases hFind : s.root.tfind compareSCNL (tkeyOf m p) with
  | some v =>
      exact hOk.nodes v
        (SearchTree.tfind_eq_some comparesBy_compareSCNL
          hFind).1
  | none => exact nodeOk_newNode m p

theorem init
    (m : ByteMem) :
    ScanOk (scanInit m) where
  ordered := by
    simp [scanInit, SearchTree.Ordered, SearchTree.twalk]
  nodes := by simp [scanInit, SearchTree.twalk]

/- A message that is passed leaves one node recorded in. -/
theorem pass
    {host : ByteOrder}
    {rc : Int}
    (hOk : ScanOk s)
    (hDone :
      reallocFailed
        (recordTbuf rc (tbufOf host s.mem s.tankbyte)
          (TankConvertor.tnodeFor s.root
            (tkeyOf s.mem s.tankbyte))) = false) :
    ScanOk (passMessage host rc s) := by
  refine ⟨ordered_passMessage hOk.ordered, ?_⟩
  intro n hn
  rcases mem_twalk_passMessage hOk.ordered hn with hOld | hNew
  · exact hOk.nodes n hOld
  · rw [hNew]
    exact nodeOk_recordTbuf (hOk.tnodeFor _ _) hDone

theorem of_foot
    [Rounding]
    {host : ByteOrder}
    {fsize : Nat}
    {s' : ScanState}
    (hOk : ScanOk s)
    (hFoot : scanBody host fsize s = .foot s') :
    ScanOk s' := by
  rcases foot_cases hFoot with
    ⟨_, _, rfl⟩ | ⟨_, hDone, rfl⟩
  · exact ⟨hOk.ordered, hOk.nodes⟩
  · have hSwapped : ScanOk (swapped host s) :=
      ⟨hOk.ordered, hOk.nodes⟩
    exact hSwapped.pass hDone

end ScanOk

end TankConvertor
