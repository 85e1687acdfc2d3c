import TankConvertor.Scan.Progress

/-
  The lists of the nodes over a whole scan: a list always
  has room for one entry more, and what it counts stays as
  it is, whatever the messages that follow come to.

  Key definitions include:
    * `SameCodes`
    * `GrowsTo`
    * `ListsSafe`

  Key theorems include:
    * `stored_prefix_recordTbuf`
    * `growsTo_of_foot`
    * `growsTo_of_trace`
    * `listsSafe_of_head`
    * `keys_of_ends`
-/

------------------------------------------------------------
-- Counted Entries Stay
------------------------------------------------------------

namespace TankConvertor

/- Two states of the node of one trace. -/
def SameCodes (n n' : TraceNode) : Prop :=
  n'.sta = n.sta ∧ n'.chan = n.chan ∧
    n'.net = n.net ∧ n'.loc = n.loc

/-
  Every node of the tree is still there, with the entries it
  had counted as the first ones of its list.
-/
def GrowsTo (root root' : SearchTree TraceNode) : Prop :=
  ∀ n ∈ root.twalk, ∃ n' ∈ root'.twalk,
    SameCodes n n' ∧ n.stored <+: n'.stored

theorem growsTo_refl
    (root : SearchTree TraceNode) :
    GrowsTo root root :=
  fun n hn =>
    ⟨n, hn, ⟨rfl, rfl, rfl, rfl⟩, List.prefix_refl _⟩

theorem GrowsTo.trans
    {r₁ r₂ r₃ : SearchTree TraceNode}
    (h₁ : GrowsTo r₁ r₂)
    (h₂ : GrowsTo r₂ r₃) :
    GrowsTo r₁ r₃ := by
  intro n hn
  rcases h₁ n hn with ⟨n', hn', hCodes, hStored⟩
  rcases h₂ n' hn' with ⟨n'', hn'', hCodes', hStored'⟩
  refine ⟨n'', hn'', ?_, hStored.trans hStored'⟩
  unfold SameCodes at hCodes hCodes' ⊢
  rw [← hCodes.1, ← hCodes.2.1, ← hCodes.2.2.1,
    ← hCodes.2.2.2]
  exact hCodes'

/- A dropped entry is scratch, a kept one comes last. -/
theorem stored_prefix_recordTbuf
    {rc : Int}
    {e : TBuf}
    {n : TraceNode}
    (hOk : NodeOk n)
    (hDone : reallocFailed (recordTbuf rc e n) = false) :
    n.stored <+: (recordTbuf rc e n).stored := by
  rw [stored_recordTbuf hOk hDone]
  split
  · exact List.prefix_append _ _
  · exact List.prefix_refl _

/- One iteration: a byte is skipped, or an entry recorded. -/
theorem growsTo_of_foot
    [Rounding]
    {host : ByteOrder}
    {fsize : Nat}
    {s s' : ScanState}
    (hOk : ScanOk s)
    (hFoot : scanBody host fsize s = .foot s') :
    GrowsTo s.root s'.root := by
  rcases foot_cases hFoot with
    ⟨_, _, rfl⟩ | ⟨_, hDone, rfl⟩
  · exact growsTo_refl _
  · rcases passMessage_perm host (swapCode host s)
        (s := swapped host s) hOk.ordered with
      ⟨rest, hNew, hOld⟩
    intro n hn
    have hStays :
        n ∈ rest → n ∈
          (passMessage host (swapCode host s)
            (swapped host s)).root.twalk :=
      fun hRest =>
        hNew.mem_iff.mpr (List.mem_cons_of_mem _ hRest)
    rcases hOld with ⟨_, _, hOld⟩ | ⟨_, _, _, hOld⟩
    · rcases List.mem_cons.mp (hOld.mem_iff.mp hn) with
        rfl | hRest
      · -- the node of the message, known before
        refine ⟨_, hNew.mem_iff.mpr (List.mem_cons_self ..),
          codes_recordTbuf _ _ _, ?_⟩
        exact stored_prefix_recordTbuf (hOk.nodes _ hn) hDone
      · exact ⟨n, hStays hRest, ⟨rfl, rfl, rfl, rfl⟩,
          List.prefix_refl _⟩
    · exact ⟨n, hStays (hOld.mem_iff.mp hn),
        ⟨rfl, rfl, rfl, rfl⟩, List.prefix_refl _⟩

/- Any number of iterations, the last one included. -/
theorem growsTo_of_trace
    [Rounding]
    {host : ByteOrder}
    {fsize : Nat}
    {s s' : ScanState}
    {hs : List ScanState}
    (hOk : ScanOk s)
    (hTrace : (scanLoop host fsize).Trace s hs s') :
    ScanOk s' ∧ GrowsTo s.root s'.root := by
  refine hTrace.invariant
    (fun _ t => ScanOk t ∧ GrowsTo s.root t.root)
    ⟨hOk, growsTo_refl _⟩ ?_
  rintro _ t t' ⟨hOkT, hGrows⟩ hFoot
  exact ⟨hOkT.of_foot hFoot,
    hGrows.trans (growsTo_of_foot hOkT hFoot)⟩

------------------------------------------------------------
-- The Head Of The Loop
------------------------------------------------------------

/-
  What the lists promise where the loop stands at `s`: their
  shape, a slot for the entry of the next message, and that
  no iteration from here on changes an entry that counts.
-/
structure ListsSafe
    [Rounding]
    (host : ByteOrder)
    (fsize : Nat)
    (s : ScanState) : Prop where
  nodes : ∀ n ∈ s.root.twalk, NodeOk n
  slot : (tnodeAt host s).ntbuf < (tnodeAt host s).tlist.length
  kept :
    ∀ hs s',
      (scanLoop host fsize).Trace s hs s' →
        GrowsTo s.root s'.root

/- The shape of the tree holds wherever the loop stands. -/
theorem scanOk_of_head
    [Rounding]
    {host : ByteOrder}
    {fsize : Nat}
    {m : ByteMem}
    {s : ScanState}
    (hHead : (scanLoop host fsize).Head (scanInit m) s) :
    ScanOk s :=
  hHead.invariant ScanOk (ScanOk.init m)
    (fun _ _ _ hOk hFoot => hOk.of_foot hFoot)

theorem listsSafe_of_head
    [Rounding]
    {host : ByteOrder}
    {fsize : Nat}
    {m : ByteMem}
    {s : ScanState}
    (hHead : (scanLoop host fsize).Head (scanInit m) s) :
    ListsSafe host fsize s := by
  have hOk : ScanOk s := scanOk_of_head hHead
  refine ⟨hOk.nodes, ?_, fun hs s' hTrace =>
    (growsTo_of_trace hOk hTrace).2⟩
  have hNode : NodeOk (tnodeAt host s) := hOk.tnodeFor _ _
  rw [hNode.slots]
  exact hNode.free

attribute [local instance] Rounding.nearest

/- The head that follows a header without samples. -/
theorem listsSafe_of_second_head :
    ∃ s,
      (∃ n ∈ s.root.twalk, n.ntbuf = 1) ∧
        ListsSafe .little 65 s := by
  let m :=
    mapTank
      (oneHeader (List.replicate 4 0) (List.replicate 8 0))
      (fun _ => 0)
  have hCode : swapCode .little (scanInit m) ≠ -1 := by
    decide +kernel
  have hTrace := trace_of_first 65 hCode
  refine ⟨_, ?_, listsSafe_of_head (hTrace.head ?_)⟩
  · decide +kernel
  · intro _
    decide +kernel

------------------------------------------------------------
-- The Trace List
------------------------------------------------------------

/- A scan that ends has no list, or that of an ordered tree. -/
theorem finish_of_ends
    [Rounding]
    {host : ByteOrder}
    {fsize : Nat}
    {m : ByteMem}
    {r : ScanResult}
    (hEnds : (scanLoop host fsize).Ends (scanInit m) r) :
    r.traceList = [] ∨ ∃ s, ScanOk s ∧ r = scanFinish s := by
  rcases DoLoop.exists_head_of_ends hEnds with ⟨s, hHead, hLast⟩
  have hOk : ScanOk s := scanOk_of_head hHead
  rcases hLast with hLeave | ⟨s', hFoot, _, rfl⟩
  · have hBody : scanBody host fsize s = .leave r := hLeave
    rw [scanBody_eq] at hBody
    by_cases hRc : swapCode host s = -1
    · rw [if_pos hRc] at hBody
      split at hBody
      · cases hBody
      · cases hBody
        let last : ScanState :=
          { s with
            mem := swapMem host s
            tankbyte := s.tankbyte + 1 }
        have hLast : ScanOk last := ⟨hOk.ordered, hOk.nodes⟩
        exact Or.inr ⟨last, hLast, rfl⟩
    · rw [if_neg hRc, scanMessage] at hBody
      split at hBody
      · cases hBody
        exact Or.inl rfl
      · cases hBody
  · exact Or.inr ⟨s', hOk.of_foot hFoot, rfl⟩

/- Two nodes of the list have different keys. -/
theorem keys_of_ends
    [Rounding]
    {host : ByteOrder}
    {fsize : Nat}
    {m : ByteMem}
    {r : ScanResult}
    (hEnds : (scanLoop host fsize).Ends (scanInit m) r) :
    r.traceList.Pairwise (fun a b => scnl a ≠ scnl b) := by
  rcases finish_of_ends hEnds with hNone | ⟨s, hOk, rfl⟩
  · rw [hNone]
    exact List.Pairwise.nil
  · have hOrd : s.root.twalk.Pairwise
        (fun a b => scnl a < scnl b) := hOk.ordered
    rw [scanFinish, List.pairwise_map]
    exact hOrd.imp (fun h => h.ne)

end TankConvertor
