import TankConvertor.Scan.Disjoint
import TankConvertor.Scan.Encoding

/-
  Tanks of well-formed tracebufs, and what the scan has put
  into its nodes wherever it stands: a node for each key that
  it has seen, with the bytes that came first, and in it the
  entries of that key's tracebufs.

  Key definitions include:
    * `Message` and `tankOf`
    * `layout`, `entriesAt` and `entriesOf`
    * `Shelved`
    * `Held`

  Key theorems include:
    * `Shelved.pass`
    * `held_step`
    * `head_of_held`
    * `maxtbuf_eq_of_tight`
-/

------------------------------------------------------------
-- Tanks Of Tracebufs
------------------------------------------------------------

namespace TankConvertor

open Trace2Header ByteMem

/- A tracebuf and the byte order it is written in. -/
structure Message [Rounding] where
  order : ByteOrder
  tracebuf : Tracebuf
deriving DecidableEq

namespace Message

def encode [Rounding] (x : Message) : List UInt8 :=
  x.tracebuf.encode x.order

def size [Rounding] (x : Message) : Nat :=
  x.tracebuf.size

/- The same tracebuf in the host's order. -/
def inOrder [Rounding] (host : ByteOrder) (x : Message) : Message :=
  ⟨host, x.tracebuf⟩

@[simp] theorem length_encode
    [Rounding]
    (x : Message) :
    x.encode.length = x.size :=
  Tracebuf.length_encode x.order x.tracebuf

theorem size_pos
    [Rounding]
    (x : Message) :
    0 < x.size := by
  unfold size Tracebuf.size sizeofTrace2Header
  omega

/- Where a message is written there are bytes. -/
theorem encode_append_ne_nil
    [Rounding]
    (x : Message)
    (rest : List UInt8) :
    x.encode ++ rest ≠ [] := by
  intro hNil
  have hLength := congrArg List.length hNil
  have hPos := x.size_pos
  rw [List.length_append, length_encode, List.length_nil]
    at hLength
  omega

end Message

/- The messages laid end to end. -/
def tankOf [Rounding] (xs : List Message) : List UInt8 :=
  xs.flatMap Message.encode

@[simp] theorem tankOf_nil [Rounding] :
    tankOf [] = [] := rfl

@[simp] theorem tankOf_cons
    [Rounding]
    (x : Message)
    (xs : List Message) :
    tankOf (x :: xs) = x.encode ++ tankOf xs := rfl

@[simp] theorem tankOf_append
    [Rounding]
    (xs ys : List Message) :
    tankOf (xs ++ ys) = tankOf xs ++ tankOf ys :=
  List.flatMap_append

/- Each tracebuf with the address it comes to lie at. -/
def layout [Rounding] : Int → List Message → List (Int × Tracebuf)
| _, [] => []
| p, x :: xs => (p, x.tracebuf) :: layout (p + x.size) xs

theorem layout_append
    [Rounding]
    (p : Int)
    (xs ys : List Message) :
    layout p (xs ++ ys) =
      layout p xs ++ layout (p + (tankOf xs).length) ys := by
  induction xs generalizing p with
  | nil => simp [layout]
  | cons x xs ih =>
      rw [List.cons_append, layout, ih, layout, tankOf_cons,
        List.length_append, Message.length_encode,
        List.cons_append]
      push_cast
      rw [add_assoc]

/- The length of a tank does not depend on the orders. -/
theorem length_tankOf_inOrder
    [Rounding]
    (host : ByteOrder)
    (xs : List Message) :
    (tankOf (xs.map (Message.inOrder host))).length =
      (tankOf xs).length := by
  induction xs with
  | nil => rfl
  | cons x xs ih =>
      rw [List.map_cons, tankOf_cons, tankOf_cons,
        List.length_append, List.length_append, ih,
        Message.length_encode, Message.length_encode]
      rfl

/- A layout elsewhere is the same layout moved. -/
theorem layout_eq_map
    [Rounding]
    (d p : Int)
    (xs : List Message) :
    layout (d + p) xs =
      (layout p xs).map (fun x => (d + x.1, x.2)) := by
  induction xs generalizing p with
  | nil => rfl
  | cons x xs ih =>
      rw [layout, layout, List.map_cons, add_assoc, ih]

theorem map_snd_layout
    [Rounding]
    (p : Int)
    (xs : List Message) :
    (layout p xs).map Prod.snd = xs.map Message.tracebuf := by
  induction xs generalizing p with
  | nil => rfl
  | cons x xs ih => simp [layout, ih]

------------------------------------------------------------
-- Codes
------------------------------------------------------------

/- Station, channel, network and location as strings. -/
abbrev Scnl :=
  List UInt8 × List UInt8 × List UInt8 × List UInt8

/- A blank becomes a dash. -/
def dash (b : UInt8) : UInt8 :=
  if b = ch ' ' then ch '-' else b

/- The key of a tracebuf. -/
def Tracebuf.codes [Rounding] (t : Tracebuf) : Scnl :=
  (cstr t.sta.bytes, cstr t.chan.bytes, cstr t.net.bytes,
    (cstr t.loc.bytes).map dash)

/- The key of a node. -/
def TraceNode.codes (n : TraceNode) : Scnl :=
  (cstr n.sta, cstr n.chan, cstr n.net, cstr n.loc)

/- The bytes of the four codes, as a node keeps them. -/
abbrev CodeBytes :=
  List UInt8 × List UInt8 × List UInt8 × List UInt8

/- The strings in them. -/
def strings (b : CodeBytes) : Scnl :=
  (cstr b.1, cstr b.2.1, cstr b.2.2.1, cstr b.2.2.2)

def TraceNode.bytes (n : TraceNode) : CodeBytes :=
  (n.sta, n.chan, n.net, n.loc)

def Tracebuf.bytes [Rounding] (t : Tracebuf) : CodeBytes :=
  (t.sta.bytes, t.chan.bytes, t.net.bytes,
    dashLoc t.loc.bytes)

/- Every code of the node holds its terminator. -/
structure Coded (n : TraceNode) : Prop where
  sta : (0 : UInt8) ∈ n.sta
  chan : (0 : UInt8) ∈ n.chan
  net : (0 : UInt8) ∈ n.net

/- Then comparing nodes is comparing the four strings. -/
theorem scnl_eq_iff_codes
    {a b : TraceNode}
    (ha : Coded a)
    (hb : Coded b) :
    scnl a = scnl b ↔ a.codes = b.codes := by
  rw [scnl_eq_iff]
  unfold TraceNode.codes TraceNode.fromSta TraceNode.fromChan
    TraceNode.fromNet TraceNode.fromLoc
  rw [cstr_append_of_mem ha.sta, cstr_append_of_mem hb.sta,
    cstr_append_of_mem ha.chan, cstr_append_of_mem hb.chan,
    cstr_append_of_mem ha.net, cstr_append_of_mem hb.net]
  simp only [Prod.mk.injEq]

/- Dashing a location is dashing its string. -/
theorem cstr_dashLoc
    (bs : List UInt8) :
    cstr (dashLoc bs) = (cstr bs).map dash := by
  induction bs with
  | nil => rfl
  | cons b bs ih =>
      unfold dashLoc
      by_cases hZero : b = 0
      · simp [hZero, cstr_cons]
      · rw [if_neg hZero, cstr_cons, cstr_cons, if_neg hZero]
        have hDash : dash b ≠ 0 := by
          unfold dash
          split
          · decide
          · exact hZero
        change (if dash b = 0 then [] else _) = _
        rw [if_neg hDash, ih]
        rfl

theorem Tracebuf.strings_bytes
    [Rounding]
    (t : Tracebuf) :
    strings t.bytes = t.codes := by
  unfold strings Tracebuf.bytes Tracebuf.codes
  rw [cstr_dashLoc]

section Key

variable [Rounding]
variable {m : ByteMem} {p : Int} {o : ByteOrder} {t : Tracebuf}

theorem coded_tkeyOf
    (h : t.Holds m p o) :
    Coded (tkeyOf m p) where
  sta := by
    change 0 ∈ m.read (p + 32) 7
    rw [h.sta]
    exact t.sta.nul_mem
  chan := by
    change 0 ∈ m.read (p + 48) 4
    rw [h.chan]
    exact t.chan.nul_mem
  net := by
    change 0 ∈ m.read (p + 39) 9
    rw [h.net]
    exact t.net.nul_mem

theorem bytes_tkeyOf
    (h : t.Holds m p o) :
    (tkeyOf m p).bytes = t.bytes := by
  unfold TraceNode.bytes Tracebuf.bytes tkeyOf
  simp only [Trace2Header.sta, Trace2Header.chan,
    Trace2Header.net, Trace2Header.loc, h.sta, h.chan, h.net,
    h.loc]

theorem codes_tkeyOf
    (h : t.Holds m p o) :
    (tkeyOf m p).codes = t.codes := by
  have hBytes := congrArg strings (bytes_tkeyOf h)
  rw [t.strings_bytes] at hBytes
  exact hBytes

end Key

------------------------------------------------------------
-- Entries
------------------------------------------------------------

/- The entry of a tracebuf that lies at `p`. -/
def entryOf [Rounding] (x : Int × Tracebuf) : TBuf where
  offset := x.1
  size := x.2.size
  time := .ofBits64 x.2.endtime.toNat

/- The entries of one key among tracebufs that are placed. -/
def entriesAt
    [Rounding]
    (c : Scnl)
    (placed : List (Int × Tracebuf)) :
    List TBuf :=
  (placed.filter (fun x => x.2.codes = c)).map entryOf

theorem entriesAt_append
    [Rounding]
    (c : Scnl)
    (placed placed' : List (Int × Tracebuf)) :
    entriesAt c (placed ++ placed') =
      entriesAt c placed ++ entriesAt c placed' := by
  simp [entriesAt]

theorem length_entriesAt
    [Rounding]
    (c : Scnl)
    (placed : List (Int × Tracebuf)) :
    (entriesAt c placed).length =
      (placed.map (fun x => x.2.codes)).count c := by
  rw [List.count, List.countP_map,
    List.countP_eq_length_filter]
  unfold entriesAt
  rw [List.length_map]
  congr 1
  apply List.filter_congr
  intro x _
  rw [Bool.eq_iff_iff, decide_eq_true_iff]
  exact beq_iff_eq.symm

/- The entries of the tracebufs of one key, in tank order. -/
def entriesOf
    [Rounding]
    (base : Int)
    (c : Scnl)
    (xs : List Message) :
    List TBuf :=
  ((layout base xs).filter (fun x => x.2.codes = c)).map
    entryOf

/- The scan makes this entry of it. -/
theorem tbufOf_eq
    [Rounding]
    {m : ByteMem}
    {p : Int}
    {host : ByteOrder}
    {t : Tracebuf}
    (h : t.Holds m p host) :
    tbufOf host m p = entryOf (p, t) := by
  have hLength :
      datalen host m p =
        t.kind.width * t.samples.length := by
    unfold datalen
    rw [h.bytePerSample_eq, h.nsamp_eq]
    exact SampleKind.wrap32_width_mul t.few
  have hSmall := t.size_le
  have hSize :
      ((t.kind.width * t.samples.length : Int) +
        sizeofTrace2Header) = t.size := by
    unfold Tracebuf.size
    push_cast
    ring
  have hFits : ((t.size : Int) % 2 ^ 64).toNat = t.size := by
    unfold maxTracebufSiz at hSmall
    omega
  unfold tbufOf entryOf
  rw [hLength, h.endtime_eq, hSize, hFits]

/- The cursor moves past the message. -/
theorem datalen_eq
    [Rounding]
    {m : ByteMem}
    {p : Int}
    {host : ByteOrder}
    {t : Tracebuf}
    (h : t.Holds m p host) :
    datalen host m p + sizeofTrace2Header = t.size := by
  have hEntry := congrArg TBuf.size (tbufOf_eq h)
  have hSmall := t.size_le
  have hLow := wrap32_lower
    (bytePerSample m p * nsamp host m p)
  have hHigh := wrap32_upper
    (bytePerSample m p * nsamp host m p)
  change
    ((datalen host m p + sizeofTrace2Header) % 2 ^ 64).toNat =
      t.size at hEntry
  change -2 ^ 31 ≤ datalen host m p at hLow
  change datalen host m p < 2 ^ 31 at hHigh
  unfold sizeofTrace2Header at hEntry ⊢
  unfold maxTracebufSiz at hSmall
  omega

------------------------------------------------------------
-- What Has Been Grouped So Far
------------------------------------------------------------

/- The keys of a tank, in tank order. -/
def keysOf [Rounding] (xs : List Message) : List Scnl :=
  xs.map (fun x => x.tracebuf.codes)

/- A key has as many entries as tracebufs. -/
theorem length_entriesOf
    [Rounding]
    (base : Int)
    (c : Scnl)
    (xs : List Message) :
    (entriesOf base c xs).length = (keysOf xs).count c := by
  have hKeys :
      keysOf xs =
        (layout base xs).map (fun x => x.2.codes) := by
    have hCodes :=
      congrArg (List.map Tracebuf.codes) (map_snd_layout base xs)
    rw [List.map_map, List.map_map] at hCodes
    exact hCodes.symm
  rw [hKeys]
  exact length_entriesAt c (layout base xs)

/- Holding a message depends on its bytes alone. -/
theorem Tracebuf.Holds.congr
    [Rounding]
    {m m' : ByteMem}
    {p : Int}
    {o : ByteOrder}
    {t : Tracebuf}
    (h : t.Holds m p o)
    (hAgree : ∀ i, p ≤ i → i < p + t.size → m' i = m i) :
    t.Holds m' p o := by
  rw [← holdsAt_encode_iff] at h ⊢
  refine (holdsAt_congr ?_).mpr h
  rw [Tracebuf.length_encode]
  exact hAgree

/- Each tracebuf in the host's order is the tank in it. -/
theorem holdsAt_tankOf_inOrder_iff
    [Rounding]
    {m : ByteMem}
    {p : Int}
    {host : ByteOrder}
    {xs : List Message} :
    m.HoldsAt p (tankOf (xs.map (Message.inOrder host))) ↔
      ∀ x ∈ layout p xs, x.2.Holds m x.1 host := by
  induction xs generalizing p with
  | nil => simp [layout]
  | cons x xs ih =>
      rw [List.map_cons, tankOf_cons, holdsAt_append, ih,
        layout]
      simp only [List.mem_cons, forall_eq_or_imp]
      rw [Message.length_encode]
      exact and_congr Tracebuf.holdsAt_encode_iff Iff.rfl

/- Tracebufs of a layout end before the next address. -/
theorem end_le_of_mem_layout
    [Rounding]
    {p : Int}
    {xs : List Message}
    {x : Int × Tracebuf}
    (hMem : x ∈ layout p xs) :
    p ≤ x.1 ∧ x.1 + x.2.size ≤ p + (tankOf xs).length := by
  induction xs generalizing p with
  | nil => cases hMem
  | cons y ys ih =>
      rw [tankOf_cons, List.length_append,
        Message.length_encode]
      rcases List.mem_cons.mp hMem with rfl | hRest
      · simp only [Message.size]
        push_cast
        omega
      · have hBounds := ih hRest
        push_cast
        omega

------------------------------------------------------------
-- Slots
------------------------------------------------------------

/- A list has not grown without need. -/
def Tight (n : TraceNode) : Prop :=
  n.maxtbuf = maxNumTbuf ∨ n.maxtbuf ≤ 2 * n.ntbuf

theorem tight_recordTbuf
    (rc : Int)
    (e : TBuf)
    {n : TraceNode}
    (hOk : NodeOk n)
    (hTight : Tight n) :
    Tight (recordTbuf rc e n) := by
  have hMax := hOk.maxtbuf_le
  unfold Tight at hTight ⊢
  rw [recordTbuf_eq rc e hOk]
  split
  · unfold growTlist
    split <;> rename_i hFull
    · right
      simp only at hFull ⊢
      omega
    · exact hTight.imp_right (fun h => by simp only; omega)
  · exact hTight

/- The slots are those that the count asks for. -/
theorem maxtbuf_eq_of_tight
    {a b : TraceNode}
    (ha : NodeOk a)
    (hb : NodeOk b)
    (hTight : Tight a)
    (hTight' : Tight b)
    (hCount : a.ntbuf = b.ntbuf) :
    a.maxtbuf = b.maxtbuf := by
  have hFree := ha.free
  have hFree' := hb.free
  rcases ha.doubled with ⟨i, _, hi⟩
  rcases hb.doubled with ⟨j, _, hj⟩
  have hDouble (k l : Nat) (hkl : k < l) :
      2 * (4096 * 2 ^ k) ≤ 4096 * 2 ^ l := by
    have hPow : 2 ^ (k + 1) ≤ 2 ^ l :=
      Nat.pow_le_pow_right (by norm_num) hkl
    rw [pow_succ] at hPow
    omega
  unfold Tight maxNumTbuf at hTight hTight'
  have hPosI : 0 < 2 ^ i := by positivity
  have hPosJ : 0 < 2 ^ j := by positivity
  rcases lt_trichotomy i j with hLt | rfl | hGt
  · have hTwice := hDouble i j hLt
    omega
  · omega
  · have hTwice := hDouble j i hGt
    omega

------------------------------------------------------------
-- What The Nodes Hold
------------------------------------------------------------

/-
  The loop has looked up the codes `seen`, in this order, and
  stored the tracebufs `placed`.
-/
structure Shelved
    [Rounding]
    (seen : List CodeBytes)
    (placed : List (Int × Tracebuf))
    (s : ScanState) : Prop where
  ok : ScanOk s
  coded : ∀ n ∈ s.root.twalk, Coded n
  total : s.totaltrace = wrap32 s.root.twalk.length
  keys :
    (s.root.twalk.map TraceNode.codes).Perm
      (seen.map strings).dedup
  first :
    ∀ n ∈ s.root.twalk,
      seen.find? (fun b => strings b = n.codes) = some n.bytes
  within : ∀ x ∈ placed, x.2.codes ∈ seen.map strings
  entries :
    ∀ n ∈ s.root.twalk, n.stored = entriesAt n.codes placed
  tight : ∀ n ∈ s.root.twalk, Tight n

section Pass

variable [Rounding]
variable {seen : List CodeBytes}
variable {placed : List (Int × Tracebuf)}
variable {s : ScanState}

theorem Shelved.mem_keys_iff
    (h : Shelved seen placed s)
    (c : Scnl) :
    c ∈ seen.map strings ↔
      ∃ n ∈ s.root.twalk, n.codes = c := by
  rw [← List.mem_dedup, ← h.keys.mem_iff, List.mem_map]

/- The trace of the codes at the cursor. -/
theorem Shelved.tnode
    (h : Shelved seen placed s)
    {m : ByteMem}
    {p : Int}
    (hTkey : Coded (tkeyOf m p))
    {known : Bool}
    {tnode : TraceNode}
    {rest : List TraceNode}
    (hAmong :
      TnodeAmong (tkeyOf m p) tnode known s.root.twalk rest) :
    Coded tnode ∧ tnode.codes = (tkeyOf m p).codes ∧
      tnode.stored = entriesAt (tkeyOf m p).codes placed ∧
      Tight tnode ∧
      (seen ++ [(tkeyOf m p).bytes]).find?
          (fun b => strings b = (tkeyOf m p).codes) =
        some tnode.bytes ∧
      ((tkeyOf m p).codes ∈ seen.map strings ↔
        known = true) := by
  rcases hAmong with
    ⟨hIs, hKey, hOld⟩ | ⟨hIs, hNew, hAbsent, _⟩
  · have hMem : tnode ∈ s.root.twalk :=
      hOld.mem_iff.mpr (by simp)
    have hSame : tnode.codes = (tkeyOf m p).codes :=
      (scnl_eq_iff_codes (h.coded _ hMem) hTkey).mp hKey
    refine
      ⟨h.coded _ hMem, hSame, ?_, h.tight _ hMem, ?_, ?_⟩
    · rw [h.entries _ hMem, hSame]
    · rw [List.find?_append, ← hSame, h.first _ hMem]
      rfl
    · rw [hIs, h.mem_keys_iff]
      exact ⟨fun _ => rfl, fun _ => ⟨tnode, hMem, hSame⟩⟩
  · have hNot : (tkeyOf m p).codes ∉ seen.map strings := by
      rw [h.mem_keys_iff]
      rintro ⟨n, hn, hSame⟩
      apply hAbsent n hn
      rw [scnl_eq_iff_codes (h.coded n hn) hTkey, hSame]
    have hNone : entriesAt (tkeyOf m p).codes placed = [] := by
      unfold entriesAt
      rw [List.map_eq_nil_iff, List.filter_eq_nil_iff]
      intro x hx hSame
      exact hNot (of_decide_eq_true hSame ▸ h.within x hx)
    have hUnseen :
        seen.find?
          (fun b => strings b = (tkeyOf m p).codes) = none := by
      rw [List.find?_eq_none]
      intro b hb hSame
      exact hNot
        (List.mem_map.mpr ⟨b, hb, of_decide_eq_true hSame⟩)
    rw [hNew, hNone, hIs]
    refine
      ⟨⟨hTkey.sta, hTkey.chan, hTkey.net⟩, rfl, rfl,
        Or.inl rfl, ?_, by simp [hNot]⟩
    rw [List.find?_append, hUnseen]
    simp [strings, TraceNode.bytes, TraceNode.codes, newNode]

/- The count of a node is the number of its key's tracebufs. -/
theorem Shelved.ntbuf_eq
    (h : Shelved seen placed s)
    {n : TraceNode}
    (hn : n ∈ s.root.twalk) :
    n.ntbuf =
      (placed.map (fun x => x.2.codes)).count n.codes := by
  rw [← length_stored (h.ok.nodes n hn), h.entries n hn,
    length_entriesAt]

/- The keys once the trace of a message is among the nodes. -/
omit [Rounding] in
theorem keys_step
    {b : CodeBytes}
    {known : Bool}
    {tkey tnode recorded : TraceNode}
    {old rest : List TraceNode}
    (hOld :
      (old.map TraceNode.codes).Perm (seen.map strings).dedup)
    (hAmong : TnodeAmong tkey tnode known old rest)
    (hTnode : tnode.codes = strings b)
    (hRecorded : recorded.codes = strings b)
    (hKnown : strings b ∈ seen.map strings ↔ known = true) :
    ((recorded :: rest).map TraceNode.codes).Perm
      ((seen ++ [b]).map strings).dedup := by
  have hSnoc :
      ((seen ++ [b]).map strings).dedup.Perm
        (strings b :: seen.map strings).dedup := by
    apply List.Perm.dedup
    rw [List.map_append]
    exact List.perm_append_comm
  refine List.Perm.trans ?_ hSnoc.symm
  rw [List.map_cons, hRecorded]
  rcases hAmong with ⟨hIs, _, hPerm⟩ | ⟨hIs, _, _, hPerm⟩
  · rw [List.dedup_cons_of_mem (hKnown.mpr hIs)]
    have hMapped := hPerm.map TraceNode.codes
    rw [List.map_cons, hTnode] at hMapped
    exact hMapped.symm.trans hOld
  · have hNot : strings b ∉ seen.map strings := by
      rw [hKnown, hIs]
      exact Bool.false_ne_true
    rw [List.dedup_cons_of_notMem hNot]
    exact ((hPerm.map TraceNode.codes).symm.trans hOld).cons _

/- The count of traces, an `int`, follows the nodes. -/
omit [Rounding] in
theorem total_step
    {known : Bool}
    {tkey tnode recorded : TraceNode}
    {old rest new : List TraceNode}
    (hAmong : TnodeAmong tkey tnode known old rest)
    (hNew : new.Perm (recorded :: rest)) :
    (if known = true then wrap32 old.length
      else wrap32 (wrap32 old.length + 1)) =
        wrap32 new.length := by
  have hLength := hNew.length_eq
  rw [List.length_cons] at hLength
  rcases hAmong with ⟨hIs, _, hPerm⟩ | ⟨hIs, _, _, hPerm⟩
  · have hSame := hPerm.length_eq
    rw [List.length_cons] at hSame
    rw [if_pos hIs, hLength, hSame]
  · have hSame := hPerm.length_eq
    rw [if_neg (by simp [hIs]), hLength, hSame]
    unfold wrap32
    push_cast
    omega

/-
  Passing over a message: its codes have been looked up, and
  its entry, if it is kept, comes last in its trace.
-/
theorem Shelved.pass
    {host : ByteOrder}
    {rc : Int}
    (h : Shelved seen placed s)
    (hTkey : Coded (tkeyOf s.mem s.tankbyte))
    (hDone :
      reallocFailed
        (recordTbuf rc (tbufOf host s.mem s.tankbyte)
          (tnodeFor s.root (tkeyOf s.mem s.tankbyte))) = false)
    {placed' : List (Int × Tracebuf)}
    (hWithin :
      ∀ x ∈ placed',
        x ∈ placed ∨
          x.2.codes = (tkeyOf s.mem s.tankbyte).codes)
    (hEntries :
      ∀ c,
        entriesAt c placed' =
          entriesAt c placed ++
            if (tkeyOf s.mem s.tankbyte).codes = c ∧
                Keeps rc (tbufOf host s.mem s.tankbyte) then
              [tbufOf host s.mem s.tankbyte]
            else
              []) :
    Shelved (seen ++ [(tkeyOf s.mem s.tankbyte).bytes]) placed'
      (passMessage host rc s) := by
  let tkey := tkeyOf s.mem s.tankbyte
  let tnode := tnodeFor s.root tkey
  let e := tbufOf host s.mem s.tankbyte
  let recorded := recordTbuf rc e tnode
  have hNode : NodeOk tnode := h.ok.tnodeFor _ _
  rcases passMessage_perm host rc h.ok.ordered with
    ⟨rest, hNew, hAmong⟩
  change
    (passMessage host rc s).root.twalk.Perm (recorded :: rest)
    at hNew
  rcases h.tnode hTkey hAmong with
    ⟨hCoded, hCodes, hStored, hTight, hFirst, hKnown⟩
  rcases codes_recordTbuf rc e tnode with
    ⟨hSta, hChan, hNet, hLoc⟩
  have hBytes' : recorded.bytes = tnode.bytes := by
    unfold TraceNode.bytes
    rw [hSta, hChan, hNet, hLoc]
  have hCodes' : recorded.codes = tkey.codes := by
    rw [← hCodes]
    exact congrArg strings hBytes'
  have hCoded' : Coded recorded :=
    ⟨hSta ▸ hCoded.sta, hChan ▸ hCoded.chan,
      hNet ▸ hCoded.net⟩
  have hRest : ∀ n ∈ rest, n ∈ s.root.twalk := by
    intro n hn
    rcases hAmong with ⟨_, _, hOld⟩ | ⟨_, _, _, hOld⟩
    · exact hOld.mem_iff.mpr (List.mem_cons_of_mem _ hn)
    · exact hOld.mem_iff.mpr hn
  have hOk' : ScanOk (passMessage host rc s) := h.ok.pass hDone
  have hDistinct : ∀ n ∈ rest, tkey.codes ≠ n.codes := by
    intro n hn hSame
    have hNodup :
        ((recorded :: rest).map scnl).Nodup := by
      refine (hNew.map scnl).nodup_iff.mp ?_
      rw [List.Nodup, List.pairwise_map]
      exact hOk'.ordered.imp (fun hLt => hLt.ne)
    rw [List.map_cons, List.nodup_cons] at hNodup
    apply hNodup.1
    rw [List.mem_map]
    refine ⟨n, hn, ?_⟩
    rw [scnl_eq_iff_codes (h.coded n (hRest n hn)) hCoded',
      ← hSame, hCodes']
  have hMem (n : TraceNode) :
      n ∈ (passMessage host rc s).root.twalk ↔
        n = recorded ∨ n ∈ rest := by
    rw [hNew.mem_iff, List.mem_cons]
  exact
    { ok := hOk'
      coded := by
        intro n hn
        rcases (hMem n).mp hn with rfl | hOld
        · exact hCoded'
        · exact h.coded n (hRest n hOld)
      total := by
        rw [← total_step hAmong hNew, ← h.total]
        rfl
      keys :=
        (hNew.map TraceNode.codes).trans
          (keys_step h.keys hAmong hCodes hCodes' hKnown)
      first := by
        intro n hn
        rcases (hMem n).mp hn with rfl | hOld
        · rw [hCodes', hBytes']
          exact hFirst
        · rw [List.find?_append, h.first n (hRest n hOld)]
          rfl
      within := by
        intro x hx
        rw [List.map_append, List.mem_append]
        rcases hWithin x hx with hOld | hSame
        · exact Or.inl (h.within x hOld)
        · right
          rw [hSame]
          simp [strings, TraceNode.bytes, TraceNode.codes]
      entries := by
        intro n hn
        rw [hEntries]
        rcases (hMem n).mp hn with rfl | hOld
        · change (recordTbuf rc e tnode).stored = _
          rw [stored_recordTbuf hNode hDone, hCodes', hStored]
          by_cases hKeeps : Keeps rc e
          · rw [if_pos hKeeps, if_pos ⟨rfl, hKeeps⟩]
          · rw [if_neg hKeeps, if_neg (fun hc => hKeeps hc.2),
              List.append_nil]
        · rw [if_neg (fun hc => hDistinct n hOld hc.1),
            List.append_nil]
          exact h.entries n (hRest n hOld)
      tight := by
        intro n hn
        rcases (hMem n).mp hn with rfl | hOld
        · exact tight_recordTbuf rc e hNode hTight
        · exact h.tight n (hRest n hOld) }

end Pass

------------------------------------------------------------
-- Tracebufs At The Cursor
------------------------------------------------------------

/-
  In addition, the tracebufs stored lie before the cursor, in
  the host's order.
-/
structure Held
    [Rounding]
    (host : ByteOrder)
    (seen : List CodeBytes)
    (placed : List (Int × Tracebuf))
    (s : ScanState) : Prop
    extends Shelved seen placed s where
  before : ∀ x ∈ placed, x.1 + x.2.size ≤ s.tankbyte
  localized : ∀ x ∈ placed, x.2.Holds s.mem x.1 host

/- Messages before the cursor stay as they are. -/
theorem Held.localized_swapMem
    [Rounding]
    {host : ByteOrder}
    {seen : List CodeBytes}
    {placed : List (Int × Tracebuf)}
    {s : ScanState}
    (h : Held host seen placed s)
    (hSame : ∀ i, i < s.tankbyte → swapMem host s i = s.mem i) :
    ∀ y ∈ placed, y.2.Holds (swapMem host s) y.1 host := by
  intro y hy
  have hBefore := h.before y hy
  refine (h.localized y hy).congr ?_
  intro i _ hHigh
  exact hSame i (by omega)

/- What the byte-order routine changes, the nodes do not see. -/
theorem Shelved.swapped
    [Rounding]
    {seen : List CodeBytes}
    {placed : List (Int × Tracebuf)}
    {s : ScanState}
    (h : Shelved seen placed s)
    (host : ByteOrder) :
    Shelved seen placed (TankConvertor.swapped host s) :=
  ⟨⟨h.ok.ordered, h.ok.nodes⟩, h.coded, h.total, h.keys,
    h.first, h.within, h.entries, h.tight⟩

section Step

variable [Rounding]
variable {host : ByteOrder}
variable {seen : List CodeBytes}
variable {placed : List (Int × Tracebuf)}
variable {x : Message} {s : ScanState}

/- The trace of a tracebuf counts those of its key. -/
theorem Held.ntbuf_tnodeFor
    (h : Held host seen placed s)
    {p : Int}
    {o : ByteOrder}
    {m : ByteMem}
    (hHolds : x.tracebuf.Holds m p o) :
    (tnodeFor s.root (tkeyOf m p)).ntbuf =
      (placed.map (fun y => y.2.codes)).count
        x.tracebuf.codes := by
  let s' : ScanState := { s with mem := m, tankbyte := p }
  rcases passMessage_perm host 0 (s := s') h.ok.ordered with
    ⟨rest, _, hAmong⟩
  rcases h.tnode (coded_tkeyOf hHolds) hAmong with
    ⟨_, _, hStored, _⟩
  have hNode : NodeOk (tnodeFor s.root (tkeyOf m p)) :=
    h.ok.tnodeFor _ _
  rw [← length_stored hNode, ← length_entriesAt,
    ← codes_tkeyOf hHolds]
  exact congrArg List.length hStored

/- The cursor stands at a message whose trace is not full. -/
theorem foot_of_message
    (fsize : Nat)
    (h : Held host seen placed s)
    (hHolds : x.tracebuf.Holds s.mem s.tankbyte x.order)
    (hFew :
      (placed.map (fun y => y.2.codes)).count
          x.tracebuf.codes + 1 < 2 ^ 31) :
    scanBody host fsize s =
        .foot (passMessage host 0 (swapped host s)) ∧
      reallocFailed
        (recordTbuf 0 (tbufAt host s) (tnodeAt host s)) =
          false := by
  rcases swapWavemsg2Makelocal_encode host hHolds with
    ⟨hCode, hLocal, _⟩
  change swapCode host s = 0 at hCode
  have hNode : NodeOk (tnodeAt host s) := h.ok.tnodeFor _ _
  have hCount :
      (tnodeAt host s).ntbuf =
        (placed.map (fun y => y.2.codes)).count
          x.tracebuf.codes :=
    h.ntbuf_tnodeFor hLocal
  have hDone :
      reallocFailed
        (recordTbuf 0 (tbufAt host s) (tnodeAt host s)) =
          false :=
    reallocFailed_of_few 0 _ hNode (by rw [hCount]; exact hFew)
  exact ⟨foot_of_done fsize hCode (by decide) hDone, hDone⟩

/- One message more is held. -/
theorem held_step
    (fsize : Nat)
    (h : Held host seen placed s)
    (hHolds : x.tracebuf.Holds s.mem s.tankbyte x.order)
    (hFew :
      (placed.map (fun y => y.2.codes)).count
          x.tracebuf.codes + 1 < 2 ^ 31) :
    ∃ s',
      scanBody host fsize s = .foot s' ∧
        Held host (seen ++ [x.tracebuf.bytes])
          (placed ++ [(s.tankbyte, x.tracebuf)]) s' ∧
        s'.tankbyte = s.tankbyte + x.size ∧
        ∀ i, i < s.tankbyte ∨ s'.tankbyte ≤ i →
          s'.mem i = s.mem i := by
  rcases foot_of_message fsize h hHolds hFew with
    ⟨hFoot, hDone⟩
  refine ⟨_, hFoot, ?_⟩
  rcases swapWavemsg2Makelocal_encode host hHolds with
    ⟨_, hLocal, hOutside⟩
  change x.tracebuf.Holds (swapMem host s) s.tankbyte host
    at hLocal
  have hEntry :
      tbufOf host (swapMem host s) s.tankbyte =
        entryOf (s.tankbyte, x.tracebuf) :=
    tbufOf_eq hLocal
  have hCodes := codes_tkeyOf hLocal
  have hNext :
      (passMessage host 0 (swapped host s)).tankbyte =
        s.tankbyte + x.size := by
    change
      s.tankbyte +
        (datalen host (swapMem host s) s.tankbyte +
          sizeofTrace2Header) = _
    rw [datalen_eq hLocal]
    rfl
  have hKeeps :
      Keeps 0 (tbufOf host (swapMem host s) s.tankbyte) := by
    refine ⟨rfl, ?_⟩
    rw [hEntry]
    exact x.tracebuf.size_le
  have hShelved :
      Shelved (seen ++ [x.tracebuf.bytes])
        (placed ++ [(s.tankbyte, x.tracebuf)])
        (passMessage host 0 (swapped host s)) := by
    rw [← bytes_tkeyOf hLocal]
    apply (h.toShelved.swapped host).pass
      (coded_tkeyOf hLocal) hDone
    · intro y hy
      rcases List.mem_append.mp hy with hOld | hLast
      · exact Or.inl hOld
      · rw [List.mem_singleton.mp hLast]
        exact Or.inr hCodes.symm
    · intro c
      change
        entriesAt c (placed ++ [(s.tankbyte, x.tracebuf)]) =
          entriesAt c placed ++
            if (tkeyOf (swapMem host s) s.tankbyte).codes = c ∧
                Keeps 0
                  (tbufOf host (swapMem host s) s.tankbyte) then
              [tbufOf host (swapMem host s) s.tankbyte]
            else
              []
      rw [entriesAt_append, hCodes, hEntry]
      rw [hEntry] at hKeeps
      by_cases hKey : x.tracebuf.codes = c
      · rw [if_pos ⟨hKey, hKeeps⟩]
        simp [entriesAt, hKey]
      · rw [if_neg (fun hc => hKey hc.1)]
        simp [entriesAt, hKey]
  have hPos := x.size_pos
  refine ⟨⟨hShelved, ?_, ?_⟩, hNext, ?_⟩
  · intro y hy
    rw [hNext]
    rcases List.mem_append.mp hy with hOld | hLast
    · have hBefore := h.before y hOld
      omega
    · rw [List.mem_singleton.mp hLast]
      exact le_rfl
  · intro y hy
    rcases List.mem_append.mp hy with hOld | hLast
    · exact h.localized_swapMem
        (fun i hi => hOutside i (Or.inl hi)) y hOld
    · rw [List.mem_singleton.mp hLast]
      exact hLocal
  · intro i hi
    rw [hNext] at hi
    exact hOutside i hi

/- A tracebuf too many ends the scan. -/
theorem leave_of_full
    (fsize : Nat)
    (h : Held host seen placed s)
    (hHolds : x.tracebuf.Holds s.mem s.tankbyte x.order)
    (hFull :
      (placed.map (fun y => y.2.codes)).count
          x.tracebuf.codes + 1 = 2 ^ 31) :
    scanBody host fsize s =
      .leave ⟨-1, swapMem host s, []⟩ := by
  rcases swapWavemsg2Makelocal_encode host hHolds with
    ⟨hCode, hLocal, _⟩
  change swapCode host s = 0 at hCode
  have hNode : NodeOk (tnodeAt host s) := h.ok.tnodeFor _ _
  have hCount :
      (tnodeAt host s).ntbuf =
        (placed.map (fun y => y.2.codes)).count
          x.tracebuf.codes :=
    h.ntbuf_tnodeFor hLocal
  have hEntry :
      tbufAt host s = entryOf (s.tankbyte, x.tracebuf) :=
    tbufOf_eq hLocal
  have hKeeps : Keeps 0 (tbufAt host s) := by
    refine ⟨rfl, ?_⟩
    rw [hEntry]
    exact x.tracebuf.size_le
  have hFailed :
      reallocFailed
        (recordTbuf 0 (tbufAt host s) (tnodeAt host s)) =
          true :=
    reallocFailed_of_full hNode hKeeps
      (by rw [hCount]; exact hFull)
  rw [scanBody_eq, hCode, if_neg (by decide)]
  unfold scanMessage
  exact if_pos hFailed

end Step

------------------------------------------------------------
-- Runs Over Tracebufs
------------------------------------------------------------

/- No key has as many tracebufs as its list cannot count. -/
def FewAt [Rounding] (placed : List (Int × Tracebuf)) : Prop :=
  ∀ c, (placed.map (fun y => y.2.codes)).count c < 2 ^ 31

theorem FewAt.of_append
    [Rounding]
    {placed placed' : List (Int × Tracebuf)}
    (h : FewAt (placed ++ placed')) :
    FewAt placed := by
  intro c
  have hAll := h c
  rw [List.map_append, List.count_append] at hAll
  omega

/- The codes of a tank's messages, in order. -/
def bytesOf [Rounding] (xs : List Message) : List CodeBytes :=
  xs.map (fun x => x.tracebuf.bytes)

theorem strings_bytesOf
    [Rounding]
    (xs : List Message) :
    (bytesOf xs).map strings = keysOf xs := by
  unfold bytesOf keysOf
  rw [List.map_map]
  apply List.map_congr_left
  intro x _
  exact x.tracebuf.strings_bytes

theorem map_codes_layout
    [Rounding]
    (base : Int)
    (xs : List Message) :
    (layout base xs).map (fun x => x.2.codes) = keysOf xs := by
  have hCodes :=
    congrArg (List.map Tracebuf.codes) (map_snd_layout base xs)
  rw [List.map_map, List.map_map] at hCodes
  exact hCodes

section Run

variable [Rounding]
variable {host : ByteOrder} {fsize : Nat}
variable {seen : List CodeBytes}
variable {placed : List (Int × Tracebuf)}
variable {s₀ : ScanState}
variable {xs ys : List Message} {x : Message}
variable {rest : List UInt8}

/- The first message of what is left lies at the cursor. -/
theorem holds_next
    {s : ScanState}
    {base : Int}
    (hTank :
      s₀.mem.HoldsAt base (tankOf xs ++ (x.encode ++ rest)))
    (hCursor : s.tankbyte = base + (tankOf xs).length)
    (hLater : ∀ i, s.tankbyte ≤ i → s.mem i = s₀.mem i) :
    x.tracebuf.Holds s.mem s.tankbyte x.order := by
  rw [holdsAt_append, holdsAt_append, ← hCursor] at hTank
  have hFirst :
      x.tracebuf.Holds s₀.mem s.tankbyte x.order :=
    Tracebuf.holdsAt_encode_iff.mp hTank.2.1
  refine hFirst.congr ?_
  intro i hLow _
  exact hLater i hLow

/- Where one message more ends, and what it adds. -/
theorem layout_snoc
    (base : Int)
    (xs : List Message)
    (x : Message) :
    layout base (xs ++ [x]) =
      layout base xs ++
        [(base + (tankOf xs).length, x.tracebuf)] := by
  rw [layout_append]
  rfl

theorem length_tankOf_snoc
    (xs : List Message)
    (x : Message) :
    (tankOf (xs ++ [x])).length =
      (tankOf xs).length + x.size := by
  simp

theorem count_lt_of_fewAt_snoc
    {base : Int}
    (hFew : FewAt (placed ++ layout base (xs ++ [x]))) :
    ((placed ++ layout base xs).map
        (fun y => y.2.codes)).count x.tracebuf.codes + 1 <
      2 ^ 31 := by
  have hAll := hFew x.tracebuf.codes
  rw [layout_snoc, ← List.append_assoc, List.map_append,
    List.count_append] at hAll
  simpa using hAll

/-
  From a state that holds `placed` the loop comes to what
  follows `xs` with `xs` held too and everything else in
  memory as it was.
-/
theorem head_of_held
    (host : ByteOrder)
    (hStart : Held host seen placed s₀)
    (hRest : rest ≠ [])
    (hTank : s₀.mem.HoldsAt s₀.tankbyte (tankOf xs ++ rest))
    (hFsize :
      (fsize : Int) =
        s₀.tankbyte + (tankOf xs ++ rest).length)
    (hFew : FewAt (placed ++ layout s₀.tankbyte xs)) :
    ∃ s,
      (scanLoop host fsize).Head s₀ s ∧
        Held host (seen ++ bytesOf xs)
          (placed ++ layout s₀.tankbyte xs) s ∧
        s.tankbyte = s₀.tankbyte + (tankOf xs).length ∧
        ∀ i, i < s₀.tankbyte ∨ s.tankbyte ≤ i →
          s.mem i = s₀.mem i := by
  induction xs using List.reverseRecOn generalizing rest with
  | nil =>
      refine ⟨s₀, DoLoop.Head.entry, ?_, ?_, fun _ _ => rfl⟩
      · simpa [bytesOf, layout] using hStart
      · simp
  | append_singleton xs x ih =>
      have hPos := x.size_pos
      have hFew' := hFew
      rw [layout_snoc, ← List.append_assoc] at hFew'
      rw [tankOf_append, tankOf_cons, tankOf_nil,
        List.append_nil, List.append_assoc] at hTank hFsize
      have hNext := x.encode_append_ne_nil rest
      rcases ih hNext hTank hFsize hFew'.of_append with
        ⟨s, hHead, hHeld, hCursor, hSame⟩
      have hHolds : x.tracebuf.Holds s.mem s.tankbyte x.order :=
        holds_next hTank hCursor
          (fun i hi => hSame i (Or.inr hi))
      rcases held_step fsize hHeld hHolds
          (count_lt_of_fewAt_snoc hFew) with
        ⟨s', hFoot, hHeld', hCursor', hStep⟩
      rw [List.length_append, List.length_append,
        Message.length_encode] at hFsize
      have hMore : 0 < rest.length :=
        List.length_pos_of_ne_nil hRest
      have hTest : (scanLoop host fsize).test s' = true := by
        change decide (s'.tankbyte < (fsize : Int)) = true
        rw [decide_eq_true_iff, hCursor', hCursor]
        omega
      refine ⟨s', hHead.again hFoot hTest, ?_, ?_, ?_⟩
      · rw [hCursor] at hHeld'
        rw [layout_snoc, ← List.append_assoc, bytesOf,
          List.map_append, ← List.append_assoc]
        exact hHeld'
      · rw [hCursor', hCursor, length_tankOf_snoc]
        push_cast
        ring
      · intro i hi
        rw [hStep i (by omega)]
        exact hSame i (by omega)

/- The loop ends with the rest of the tank held. -/
theorem ends_of_held
    (host : ByteOrder)
    (hStart : Held host seen placed s₀)
    (hXs : xs ≠ [])
    (hTank : s₀.mem.HoldsAt s₀.tankbyte (tankOf xs))
    (hFsize :
      (fsize : Int) = s₀.tankbyte + (tankOf xs).length)
    (hFew : FewAt (placed ++ layout s₀.tankbyte xs)) :
    ∃ s,
      (scanLoop host fsize).Ends s₀ (scanFinish s) ∧
        Held host (seen ++ bytesOf xs)
          (placed ++ layout s₀.tankbyte xs) s ∧
        s.tankbyte = fsize ∧
        ∀ i, i < s₀.tankbyte ∨ (fsize : Int) ≤ i →
          s.mem i = s₀.mem i := by
  induction xs using List.reverseRecOn with
  | nil => exact (hXs rfl).elim
  | append_singleton xs x _ =>
      have hPos := x.size_pos
      have hFew' := hFew
      rw [layout_snoc, ← List.append_assoc] at hFew'
      have hLast : tankOf [x] = x.encode ++ [] := rfl
      have hRest := x.encode_append_ne_nil []
      have hTank' := hTank
      have hFsize' := hFsize
      rw [tankOf_append, hLast] at hTank' hFsize'
      rcases head_of_held host hStart hRest hTank' hFsize'
          hFew'.of_append with
        ⟨s, hHead, hHeld, hCursor, hSame⟩
      have hHolds : x.tracebuf.Holds s.mem s.tankbyte x.order :=
        holds_next hTank' hCursor
          (fun i hi => hSame i (Or.inr hi))
      rcases held_step fsize hHeld hHolds
          (count_lt_of_fewAt_snoc hFew) with
        ⟨s', hFoot, hHeld', hCursor', hStep⟩
      have hEnd : s'.tankbyte = fsize := by
        rw [hCursor', hCursor, hFsize, length_tankOf_snoc]
        push_cast
        ring
      have hTest : (scanLoop host fsize).test s' = false := by
        change decide (s'.tankbyte < (fsize : Int)) = false
        rw [decide_eq_false_iff_not, hEnd]
        exact lt_irrefl _
      refine ⟨s', ?_, ?_, hEnd, ?_⟩
      · exact DoLoop.ends_of_head hHead
          (DoLoop.ends_of_done hFoot hTest)
      · rw [hCursor] at hHeld'
        rw [layout_snoc, ← List.append_assoc, bytesOf,
          List.map_append, ← List.append_assoc]
        exact hHeld'
      · intro i hi
        rw [hStep i (by omega)]
        exact hSame i (by omega)

/- The first tracebuf that makes `2^31` of its key. -/
theorem exists_full_of_not_fewAt
    {base : Int}
    (hFew : FewAt placed)
    (hMany : ¬ FewAt (placed ++ layout base xs)) :
    ∃ ys x zs,
      xs = ys ++ x :: zs ∧
        FewAt (placed ++ layout base ys) ∧
        ((placed ++ layout base ys).map
          (fun y => y.2.codes)).count x.tracebuf.codes + 1 =
            2 ^ 31 := by
  induction xs using List.reverseRecOn with
  | nil =>
      refine (hMany ?_).elim
      rw [layout, List.append_nil]
      exact hFew
  | append_singleton xs x ih =>
      by_cases hOld : FewAt (placed ++ layout base xs)
      · refine ⟨xs, x, [], rfl, hOld, ?_⟩
        unfold FewAt at hMany
        push Not at hMany
        rcases hMany with ⟨c, hc⟩
        have hBefore := hOld c
        rw [layout_snoc, ← List.append_assoc,
          List.map_append, List.count_append, List.map_cons,
          List.map_nil] at hc
        by_cases hKey : x.tracebuf.codes = c
        · rw [hKey] at hc ⊢
          rw [List.count_singleton_self] at hc
          omega
        · rw [List.count_singleton,
            if_neg (by simpa using hKey)] at hc
          omega
      · rcases ih hOld with ⟨ys, y, zs, hSplit, hRest⟩
        refine ⟨ys, y, zs ++ [x], ?_, hRest⟩
        rw [hSplit, List.append_assoc, List.cons_append]

/- With it the scan ends. -/
theorem ends_of_overfull
    (host : ByteOrder)
    (hStart : Held host seen placed s₀)
    (hTank : s₀.mem.HoldsAt s₀.tankbyte (tankOf xs ++ rest))
    (hFsize :
      (fsize : Int) =
        s₀.tankbyte + (tankOf xs ++ rest).length)
    (hFew : FewAt placed)
    (hMany : ¬ FewAt (placed ++ layout s₀.tankbyte xs)) :
    ∃ m, (scanLoop host fsize).Ends s₀ ⟨-1, m, []⟩ := by
  rcases exists_full_of_not_fewAt hFew hMany with
    ⟨ys, x, zs, rfl, hYs, hFull⟩
  have hNe := x.encode_append_ne_nil (tankOf zs ++ rest)
  rw [tankOf_append, tankOf_cons, List.append_assoc,
    List.append_assoc] at hTank hFsize
  rcases head_of_held host hStart hNe hTank hFsize hYs with
    ⟨s, hHead, hHeld, hCursor, hSame⟩
  have hHolds : x.tracebuf.Holds s.mem s.tankbyte x.order :=
    holds_next hTank hCursor
      (fun i hi => hSame i (Or.inr hi))
  exact ⟨_, DoLoop.ends_of_head hHead
    (DoLoop.ends_of_leave
      (leave_of_full fsize hHeld hHolds hFull))⟩

end Run

end TankConvertor
