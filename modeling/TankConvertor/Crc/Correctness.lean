import TankConvertor.Crc.Model
import TankConvertor.Library.Crc

/-
  The check is the CRC-32C of the bytes it reads, whichever
  way it is computed.

  Key definitions include:
    * `crc32c`
    * `bytesRead`

  Key theorems include:
    * `crc32cTable_rows`
    * `ms_crc32c_eq`
    * `crc32c_append`
    * `crc32c_burst_ne`
    * `ms_crc32c_reads_inside_iff`
-/

------------------------------------------------------------
-- The Table
------------------------------------------------------------

namespace TankConvertor

/- `CRC32C_POLYNOMIAL`. -/
def crc32cPolynomial : BitVec 32 := 0x82F63B78#32

/- Each slice divides the one before it by eight bits more. -/
theorem crc32cTable_rows :
    ∀ k < 8,
      crc32cTable.getD k [] =
        (match k with
          | 0 => List.range 256
          | k + 1 => crc32cTable.getD k []).map
          (fun v =>
            (Crc.steps crc32cPolynomial 8
              (BitVec.ofNat 32 v)).toNat) := by
  decide +kernel

/- An entry is the remainder of its index. -/
theorem crcEntry_eq
    {k : Nat}
    (hSlice : k < 8)
    {i : Nat}
    (hIndex : i < 256) :
    crcEntry k (BitVec.ofNat 32 i) =
      Crc.steps crc32cPolynomial (8 * (k + 1))
        (BitVec.ofNat 32 i) := by
  have hNat : (BitVec.ofNat 32 i).toNat = i := by
    rw [BitVec.toNat_ofNat]
    omega
  have hRow : ∀ k < 8, (crc32cTable.getD k [])[i]? =
      some (Crc.steps crc32cPolynomial (8 * (k + 1))
        (BitVec.ofNat 32 i)).toNat := by
    intro k hk
    induction k with
    | zero =>
        rw [crc32cTable_rows 0 hk]
        simp [hIndex]
    | succ k ih =>
        rw [crc32cTable_rows (k + 1) hk, List.getElem?_map,
          ih (by omega), Option.map_some, Nat.mul_succ 8 (k + 1),
          Crc.steps_add, BitVec.ofNat_toNat, BitVec.setWidth_eq]
  unfold crcEntry
  rw [hNat, List.getD_eq_getElem?_getD, hRow k hSlice,
    Option.getD_some, BitVec.ofNat_toNat, BitVec.setWidth_eq]

------------------------------------------------------------
-- Words And Bytes
------------------------------------------------------------

/- The low byte of a word. -/
theorem and_ff
    (c : BitVec 32) :
    c &&& 0xff#32 = BitVec.ofNat 32 (c.toNat % 256) := by
  apply BitVec.eq_of_toNat_eq
  have hMask : c.toNat &&& (2 ^ 8 - 1) = c.toNat % 2 ^ 8 :=
    Nat.and_two_pow_sub_one_eq_mod _ 8
  rw [BitVec.toNat_and, BitVec.toNat_ofNat, BitVec.toNat_ofNat]
  exact hMask.trans (Nat.mod_eq_of_lt (by omega)).symm

/- And the one `n` bits up. -/
theorem ushiftRight_and_ff
    (c : BitVec 32)
    (n : Nat) :
    (c >>> n) &&& 0xff#32 =
      BitVec.ofNat 32 (c.toNat / 2 ^ n % 256) := by
  rw [and_ff, BitVec.toNat_ushiftRight, Nat.shiftRight_eq_div_pow]

theorem ushiftRight_24
    (c : BitVec 32) :
    c >>> 24 = (c >>> 24) &&& 0xff#32 := by
  rw [ushiftRight_and_ff]
  apply BitVec.eq_of_toNat_eq
  rw [BitVec.toNat_ushiftRight, BitVec.toNat_ofNat,
    Nat.shiftRight_eq_div_pow]
  omega

/- The bytes of a word, the lowest one first. -/
def wordBytes (c : BitVec 32) : List Nat :=
  [c.toNat % 256, c.toNat / 2 ^ 8 % 256, c.toNat / 2 ^ 16 % 256,
    c.toNat / 2 ^ 24 % 256]

theorem wordBytes_lt
    {c : BitVec 32}
    {d : Nat}
    (hMem : d ∈ wordBytes c) :
    d < 2 ^ 8 := by
  simp only [wordBytes, List.mem_cons, List.not_mem_nil,
    or_false] at hMem
  omega

theorem ofDigits_wordBytes
    (c : BitVec 32) :
    BitVec.ofNat 32 (Nat.ofDigits (2 ^ 8) (wordBytes c)) = c := by
  apply BitVec.eq_of_toNat_eq
  have hLt := c.isLt
  simp only [wordBytes, Nat.ofDigits_cons, Nat.ofDigits_nil,
    BitVec.toNat_ofNat]
  omega

/- Four slices of the table, from slice `k` on. -/
theorem crcEntry_word
    {k : Nat}
    (hSlices : k + 3 < 8)
    (c : BitVec 32) :
    crcEntry (k + 3) (c &&& 0xff#32) ^^^
        crcEntry (k + 2) ((c >>> 8) &&& 0xff#32) ^^^
        crcEntry (k + 1) ((c >>> 16) &&& 0xff#32) ^^^
        crcEntry k ((c >>> 24) &&& 0xff#32) =
      Crc.steps crc32cPolynomial (8 * k)
        (Crc.steps crc32cPolynomial 32 c) := by
  have hAll := Crc.steps_ofDigits crc32cPolynomial
    (by decide : 0 < 8) (fun d => wordBytes_lt)
    (by rfl : 8 * (wordBytes c).length ≤ 32)
  rw [ofDigits_wordBytes] at hAll
  have hEntry : ∀ j b, j < 4 →
      crcEntry (k + j) (BitVec.ofNat 32 (b % 256)) =
        Crc.steps crc32cPolynomial (8 * k)
          (Crc.steps crc32cPolynomial (8 * (j + 1))
            (BitVec.ofNat 32 (b % 256))) := by
    intro j b hj
    rw [crcEntry_eq (by omega) (Nat.mod_lt b (by decide)),
      ← Crc.steps_add]
    congr 1
    omega
  have hZero := hEntry 0 (c.toNat / 2 ^ 24) (by decide)
  rw [Nat.add_zero] at hZero
  rw [and_ff, ushiftRight_and_ff, ushiftRight_and_ff,
    ushiftRight_and_ff, hEntry 3 _ (by decide),
    hEntry 2 _ (by decide), hEntry 1 _ (by decide), hZero,
    ← Crc.steps_xor, ← Crc.steps_xor, ← Crc.steps_xor]
  refine congrArg _ (Eq.trans ?_ hAll.symm)
  simp only [wordBytes, Crc.sliced, List.length_cons,
    List.length_nil, BitVec.xor_zero, BitVec.xor_assoc]

/- One byte. -/
theorem crcEntry_byte
    (c : BitVec 32)
    (b : UInt8) :
    (c >>> 8) ^^^
        crcEntry 0 ((c &&& 0xff#32) ^^^ BitVec.ofNat 32 b.toNat) =
      Crc.steps crc32cPolynomial 8
        (c ^^^ BitVec.ofNat 32 b.toNat) := by
  have hByte := b.toNat_lt
  have hLow :
      (c &&& 0xff#32) ^^^ BitVec.ofNat 32 b.toNat =
        BitVec.ofNat 32 (c.toNat % 256 ^^^ b.toNat) := by
    rw [and_ff, BitVec.ofNat_xor]
  have hIndex : c.toNat % 256 ^^^ b.toNat < 256 :=
    Nat.xor_lt_two_pow (n := 8) (by omega) (by omega)
  have hSplit :
      c = BitVec.ofNat 32 (c.toNat % 256) ^^^
        BitVec.ofNat 32 (2 ^ 8 * (c.toNat / 256)) := by
    rw [← Crc.ofNat_add (by omega : c.toNat % 256 < 2 ^ 8),
      show c.toNat % 256 + 2 ^ 8 * (c.toNat / 256) = c.toNat by
        omega,
      BitVec.ofNat_toNat, BitVec.setWidth_eq]
  have hHigh :
      Crc.steps crc32cPolynomial 8
          (BitVec.ofNat 32 (2 ^ 8 * (c.toNat / 256))) =
        c >>> 8 := by
    have hLt := c.isLt
    rw [Crc.steps_shift _ _ (by omega)]
    apply BitVec.eq_of_toNat_eq
    rw [BitVec.toNat_ushiftRight, BitVec.toNat_ofNat,
      Nat.shiftRight_eq_div_pow]
    omega
  rw [hLow, crcEntry_eq (by decide) hIndex, ← hHigh,
    ← Crc.steps_xor]
  congr 1
  conv => rhs; rw [hSplit]
  rw [BitVec.ofNat_xor]
  ac_rfl

------------------------------------------------------------
-- Feeding Memory
------------------------------------------------------------

/- The bytes of the memory as digits. -/
def digitsAt (m : ByteMem) (p : Int) (n : Nat) : List Nat :=
  (m.read p n).map UInt8.toNat

theorem digitsAt_lt
    {m : ByteMem}
    {p : Int}
    {n d : Nat}
    (hMem : d ∈ digitsAt m p n) :
    d < 2 ^ 8 := by
  rcases List.mem_map.mp hMem with ⟨b, -, rfl⟩
  exact b.toNat_lt

theorem digitsAt_add
    (m : ByteMem)
    (p : Int)
    (a b : Nat) :
    digitsAt m p (a + b) =
      digitsAt m p a ++ digitsAt m (p + a) b := by
  unfold digitsAt
  rw [ByteMem.read_add, List.map_append]

theorem leNat_eq_ofDigits
    (bs : List UInt8) :
    leNat bs = Nat.ofDigits (2 ^ 8) (bs.map UInt8.toNat) := by
  induction bs with
  | nil => rfl
  | cons b bs ih =>
      rw [leNat, ih, List.map_cons, Nat.ofDigits_cons]
      rfl

/- Four bytes at once, as a word of a little-endian host. -/
theorem feed_word
    (m : ByteMem)
    (p : Int)
    (c : BitVec 32) :
    Crc.feed crc32cPolynomial 8 c (digitsAt m p 4) =
      Crc.steps crc32cPolynomial 32
        (c ^^^ loadWord32 .little m p) := by
  have hLen : (digitsAt m p 4).length = 4 := by simp [digitsAt]
  rw [Crc.feed_eq_steps _ (by decide) (fun d => digitsAt_lt)
    (by rw [hLen]), hLen, loadWord32, ByteOrder.value,
    leNat_eq_ofDigits]
  rfl

theorem sCrcGenericSb1_eq
    (m : ByteMem)
    (length : Nat)
    (input : Int)
    (crc : BitVec 32) :
    sCrcGenericSb1 m length input crc =
      Crc.feed crc32cPolynomial 8 crc
        (digitsAt m input length) := by
  induction length generalizing input crc with
  | zero => rfl
  | succ length ih =>
      rw [sCrcGenericSb1, ih, crcEntry_byte]
      unfold digitsAt
      rw [ByteMem.read_succ]
      rfl

/- A word, and what is behind it. -/
theorem feed_word_add
    (m : ByteMem)
    (p : Int)
    (n : Nat)
    (c : BitVec 32) :
    Crc.feed crc32cPolynomial 8 c (digitsAt m p (n + 4)) =
      Crc.feed crc32cPolynomial 8
        (Crc.steps crc32cPolynomial 32
          (c ^^^ loadWord32 .little m p))
        (digitsAt m (p + 4) n) := by
  rw [Nat.add_comm, digitsAt_add, Crc.feed_append, feed_word]
  rfl

theorem sCrcGenericSb4_eq
    (m : ByteMem)
    (remaining : Nat)
    (current : Int)
    (crc : BitVec 32) :
    sCrcGenericSb4 .little m remaining current crc =
      Crc.feed crc32cPolynomial 8 crc
        (digitsAt m current remaining) := by
  fun_induction sCrcGenericSb4 .little m remaining current crc with
  | case1 remaining current crc c ih =>
      have hWord := crcEntry_word (k := 0) (by decide) c
      rw [← ushiftRight_24] at hWord
      refine (ih.trans ?_).trans
        (feed_word_add m current remaining crc).symm
      exact congrArg (fun c => Crc.feed _ _ c _) hWord
  | case2 remaining current crc hFew =>
      exact sCrcGenericSb1_eq m remaining current crc

theorem sCrcGenericSb8_eq
    (m : ByteMem)
    (remaining : Nat)
    (current : Int)
    (crc : BitVec 32) :
    sCrcGenericSb8 .little m remaining current crc =
      Crc.feed crc32cPolynomial 8 crc
        (digitsAt m current remaining) := by
  fun_induction sCrcGenericSb8 .little m remaining current crc with
  | case1 remaining current crc c1 c2 t1 t2 ih =>
      have hFirst := crcEntry_word (k := 4) (by decide) c1
      have hSecond := crcEntry_word (k := 0) (by decide) c2
      have hBoth :
          t1 ^^^ t2 =
            Crc.steps crc32cPolynomial 32
              (Crc.steps crc32cPolynomial 32 c1 ^^^ c2) := by
        rw [Crc.steps_xor]
        exact congrArg₂ (· ^^^ ·) hFirst hSecond
      have hSwap : c1 = crc ^^^ loadWord32 .little m current :=
        BitVec.xor_comm _ _
      rw [hSwap] at hBoth
      have hTwice :=
        (feed_word_add m current (remaining + 4) crc).trans
          (feed_word_add m (current + 4) remaining _)
      rw [Int.add_assoc] at hTwice
      refine (ih.trans ?_).trans hTwice.symm
      exact congrArg (fun c => Crc.feed _ _ c _) hBoth
  | case2 remaining current crc hFew =>
      exact sCrcGenericSb4_eq m remaining current crc

------------------------------------------------------------
-- The Check
------------------------------------------------------------

/- The CRC-32C of bytes, bit by bit. -/
def crc32c
    (previous : BitVec 32)
    (bs : List UInt8) :
    BitVec 32 :=
  ~~~Crc.feed crc32cPolynomial 1 (~~~previous)
    ((bs.map UInt8.toNat).flatMap (Crc.bitsOf 8))

theorem crc32c_eq_feed
    (previous : BitVec 32)
    (bs : List UInt8) :
    crc32c previous bs =
      ~~~Crc.feed crc32cPolynomial 8 (~~~previous)
        (bs.map UInt8.toNat) := by
  have hDigits : ∀ d ∈ bs.map UInt8.toNat, d < 2 ^ 8 := by
    intro d hd
    rcases List.mem_map.mp hd with ⟨b, -, rfl⟩
    exact b.toNat_lt
  unfold crc32c
  rw [Crc.feed_bits _ (by decide) hDigits]

/- How many bytes are read for a length. -/
def bytesRead
    (host : ByteOrder)
    (input length : Int) :
    Nat :=
  match host with
  | .big => length.toNat
  | .little =>
      if length < leadingBytes input then
        (leadingBytes input).toNat
      else
        length.toNat

theorem leadingBytes_bounds
    (input : Int) :
    0 ≤ leadingBytes input ∧ leadingBytes input ≤ 3 := by
  unfold leadingBytes
  omega

/- The leading bytes are skipped for no length but theirs. -/
theorem sCrc32cSb8_eq
    (m : ByteMem)
    (input length : Int)
    (hLow : -2 ^ 31 ≤ length)
    (hHigh : length < 2 ^ 31)
    (previous : BitVec 32) :
    sCrc32cSb8 .little m input length previous =
      ~~~Crc.feed crc32cPolynomial 8 (~~~previous)
        (digitsAt m input (bytesRead .little input length)) := by
  have hBounds := leadingBytes_bounds input
  simp only [sCrc32cSb8, sCrcGenericAlign, bytesRead]
  generalize leadingBytes input = leading at *
  by_cases hAlign : leading ≠ 0 ∧ 0 < (length - leading) % 2 ^ 64
  · have hSplit :
        (if length < leading then leading.toNat
          else length.toNat) =
          leading.toNat + (length - leading).toNat := by
      split_ifs <;> omega
    have hCast : ((leading.toNat : Nat) : Int) = leading :=
      Int.toNat_of_nonneg hBounds.1
    rw [if_pos hAlign]
    dsimp only
    rw [sCrcGenericSb8_eq, sCrcGenericSb1_eq, hSplit,
      digitsAt_add, Crc.feed_append, hCast]
  · have hSame :
        (if length < leading then leading.toNat
          else length.toNat) =
          length.toNat := by
      split_ifs <;> omega
    rw [if_neg hAlign]
    dsimp only
    rw [sCrcGenericSb8_eq, hSame]

/- The host decides which of the routines is called. -/
theorem msCrc32c_eq_feed
    (host : ByteOrder)
    (m : ByteMem)
    (input length : Int)
    (hLow : -2 ^ 31 ≤ length)
    (hHigh : length < 2 ^ 31)
    (previous : BitVec 32) :
    msCrc32c host m input length previous =
      ~~~Crc.feed crc32cPolynomial 8 (~~~previous)
        (digitsAt m input (bytesRead host input length)) := by
  cases host with
  | big =>
      simp only [msCrc32c, sCrc32cNoSlice, bytesRead,
        sCrcGenericSb1_eq]
  | little => exact sCrc32cSb8_eq m input length hLow hHigh previous

/-
  Words and slices come to the same as single bits, for the
  bytes that are read.
-/
theorem ms_crc32c_eq
    (host : ByteOrder)
    (m : ByteMem)
    (input length : Int)
    (hLow : -2 ^ 31 ≤ length)
    (hHigh : length < 2 ^ 31)
    (previous : BitVec 32) :
    msCrc32c host m input length previous =
      crc32c previous
        (m.read input (bytesRead host input length)) := by
  rw [crc32c_eq_feed]
  exact msCrc32c_eq_feed host m input length hLow hHigh previous

/- Odd addresses and lengths on either host. -/
theorem ms_crc32c_eq_unaligned :
    msCrc32c .little (fun i => UInt8.ofNat i.toNat) 5 13 0#32 =
      crc32c 0#32
        (ByteMem.read (fun i => UInt8.ofNat i.toNat) 5 13) :=
  ms_crc32c_eq .little _ 5 13 (by decide) (by decide) 0#32

/- A check may be computed in parts. -/
theorem crc32c_append
    (previous : BitVec 32)
    (bs cs : List UInt8) :
    crc32c previous (bs ++ cs) = crc32c (crc32c previous bs) cs := by
  rw [crc32c_eq_feed, crc32c_eq_feed, crc32c_eq_feed,
    BitVec.not_not, List.map_append, Crc.feed_append]

------------------------------------------------------------
-- Errors
------------------------------------------------------------

theorem crc32cPolynomial_msb :
    crc32cPolynomial.msb = true := by
  decide

/- The bits in which bytes go over the line. -/
def bitsOfBytes (bs : List UInt8) : List Nat :=
  (bs.map UInt8.toNat).flatMap (Crc.bitsOf 8)

theorem bitsOfBytes_lt
    {bs : List UInt8}
    {b : Nat}
    (hMem : b ∈ bitsOfBytes bs) :
    b < 2 ^ 1 := by
  rcases List.mem_flatMap.mp hMem with ⟨d, -, hb⟩
  exact Crc.bitsOf_lt hb

@[simp] theorem length_bitsOfBytes
    (bs : List UInt8) :
    (bitsOfBytes bs).length = 8 * bs.length := by
  induction bs with
  | nil => rfl
  | cons b bs ih =>
      have hRest : bitsOfBytes (b :: bs) =
          Crc.bitsOf 8 b.toNat ++ bitsOfBytes bs := rfl
      rw [hRest, List.length_append, ih, Crc.length_bitsOf,
        List.length_cons]
      omega

theorem bitsOfBytes_inj
    {bs cs : List UInt8}
    (hEq : bitsOfBytes bs = bitsOfBytes cs) :
    bs = cs := by
  induction bs generalizing cs with
  | nil =>
      cases cs with
      | nil => rfl
      | cons c cs => simp [bitsOfBytes, Crc.bitsOf] at hEq
  | cons b bs ih =>
      cases cs with
      | nil => simp [bitsOfBytes, Crc.bitsOf] at hEq
      | cons c cs =>
          have hSplit := List.append_inj hEq (by simp)
          have hByte := congrArg (Nat.ofDigits 2) hSplit.1
          rw [Crc.ofDigits_bitsOf b.toNat_lt,
            Crc.ofDigits_bitsOf c.toNat_lt] at hByte
          rw [UInt8.toNat_inj.mp hByte, ih hSplit.2]

/-
  Bytes that differ, all their differing bits among 32 in a
  row, have different checks.
-/
theorem crc32c_ne_of_burst
    {bs cs : List UInt8}
    (hNe : bs ≠ cs)
    {front mid mid' back : List Nat}
    (hBits : bitsOfBytes bs = front ++ mid ++ back)
    (hBits' : bitsOfBytes cs = front ++ mid' ++ back)
    (hLen : mid.length = mid'.length)
    (hBurst : mid.length ≤ 32)
    (previous : BitVec 32) :
    crc32c previous bs ≠ crc32c previous cs := by
  have hMid : mid ≠ mid' := by
    rintro rfl
    exact hNe (bitsOfBytes_inj (hBits.trans hBits'.symm))
  have hSmall : ∀ d ∈ mid, d < 2 ^ 1 := fun d hd =>
    bitsOfBytes_lt
      (by simp [hBits, hd] : d ∈ bitsOfBytes bs)
  have hSmall' : ∀ d ∈ mid', d < 2 ^ 1 := fun d hd =>
    bitsOfBytes_lt
      (by simp [hBits', hd] : d ∈ bitsOfBytes cs)
  intro hEq
  have hFeed := congrArg (~~~·) hEq
  simp only [crc32c, BitVec.not_not] at hFeed
  change Crc.feed _ 1 _ (bitsOfBytes bs) =
    Crc.feed _ 1 _ (bitsOfBytes cs) at hFeed
  rw [hBits, hBits'] at hFeed
  exact Crc.feed_burst_ne crc32cPolynomial_msb (by decide) hLen
    (by omega) hSmall hSmall' hMid _ hFeed

/- The bytes given are read where there are enough of them. -/
theorem bytesRead_of_long
    {host : ByteOrder}
    {input length : Int}
    (hLong : host = .big ∨ leadingBytes input ≤ length) :
    bytesRead host input length = length.toNat := by
  cases host with
  | big => rfl
  | little =>
      have hLeading : leadingBytes input ≤ length := by
        simpa using hLong
      rw [bytesRead, if_neg (by omega)]

theorem msCrc32c_of_long
    {host : ByteOrder}
    {m : ByteMem}
    {input : Int}
    {bs : List UInt8}
    (hRead : m.read input bs.length = bs)
    (hHigh : bs.length < 2 ^ 31)
    (hLong : host = .big ∨ leadingBytes input ≤ bs.length)
    (previous : BitVec 32) :
    msCrc32c host m input bs.length previous =
      crc32c previous bs := by
  have hAll :=
    msCrc32c_eq_feed host m input bs.length (by omega)
      (by omega) previous
  rw [bytesRead_of_long hLong, Int.toNat_natCast, digitsAt,
    hRead, ← crc32c_eq_feed] at hAll
  exact hAll

/-
  Bytes that differ, all their differing bits among 32 in a
  row, have different checks, wherever they stand and on
  whichever host.
-/
theorem crc32c_burst_ne
    {bs cs : List UInt8}
    (hNe : bs ≠ cs)
    {front mid mid' back : List Nat}
    (hBits : bitsOfBytes bs = front ++ mid ++ back)
    (hBits' : bitsOfBytes cs = front ++ mid' ++ back)
    (hLen : mid.length = mid'.length)
    (hBurst : mid.length ≤ 32)
    (previous : BitVec 32) :
    crc32c previous bs ≠ crc32c previous cs ∧
      ∀ (host host' : ByteOrder) (m m' : ByteMem)
        (input input' : Int),
        m.read input bs.length = bs →
          m'.read input' cs.length = cs →
          bs.length < 2 ^ 31 → cs.length < 2 ^ 31 →
          (host = .big ∨ leadingBytes input ≤ bs.length) →
          (host' = .big ∨ leadingBytes input' ≤ cs.length) →
            msCrc32c host m input bs.length previous ≠
              msCrc32c host' m' input' cs.length previous := by
  have hDiffer :=
    crc32c_ne_of_burst hNe hBits hBits' hLen hBurst previous
  refine ⟨hDiffer, ?_⟩
  intro host host' m m' input input' hRead hRead' hHigh hHigh'
    hLong hLong'
  rw [msCrc32c_of_long hRead hHigh hLong,
    msCrc32c_of_long hRead' hHigh' hLong']
  exact hDiffer

/- One bit of a version number. -/
theorem crc32c_burst_ne_bit :
    let bs : List UInt8 := [0x4d, 0x53, 0x03]
    let cs : List UInt8 := [0x4d, 0x53, 0x02]
    crc32c 0#32 bs ≠ crc32c 0#32 cs ∧
      msCrc32c .little (fun i => bs.getD i.toNat 0) 0 3 0#32 ≠
        msCrc32c .little (fun i => cs.getD i.toNat 0) 0 3
          0#32 := by
  intro bs cs
  have hBoth :=
    @crc32c_burst_ne bs cs (by decide) _ _ _ _
      (by rfl :
        _ = bitsOfBytes [0x4d, 0x53] ++ bitsOfBytes [0x03] ++ [])
      (by rfl :
        _ = bitsOfBytes [0x4d, 0x53] ++ bitsOfBytes [0x02] ++ [])
      (by decide) (by decide) 0#32
  exact ⟨hBoth.1,
    hBoth.2 .little .little _ _ 0 0 rfl rfl (by decide)
      (by decide) (by decide) (by decide)⟩

/-
  On a little-endian host an input shorter than the way to
  the next aligned word is read past its end, and the check
  depends on what is there.
-/
theorem ms_crc32c_reads_inside_iff
    (host : ByteOrder)
    (input length : Int)
    (hPos : 0 ≤ length)
    (hHigh : length < 2 ^ 31)
    (previous : BitVec 32) :
    (∀ m m' : ByteMem,
        m.read input length.toNat = m'.read input length.toNat →
          msCrc32c host m input length previous =
            msCrc32c host m' input length previous) ↔
      host = .big ∨ leadingBytes input ≤ length := by
  have hEach :
      ∀ m,
        msCrc32c host m input length previous =
          crc32c previous
            (m.read input (bytesRead host input length)) := by
    intro m
    rw [crc32c_eq_feed]
    exact msCrc32c_eq_feed host m input length (by omega) hHigh
      previous
  constructor
  · intro hInside
    by_contra hPast
    push Not at hPast
    have hHost : host = .little := by
      cases host with
      | little => rfl
      | big => exact absurd rfl hPast.1
    have hBounds := leadingBytes_bounds input
    have hRead :
        bytesRead host input length =
          (leadingBytes input).toNat := by
      rw [hHost, bytesRead, if_pos hPast.2]
    -- Two memories that differ in the byte behind the input.
    let m : ByteMem := fun _ => 0
    have hSame :
        m.read input length.toNat =
          (m.set (input + length) 1).read input length.toNat := by
      apply List.map_congr_left
      intro i hi
      have hLt := List.mem_range.mp hi
      rw [ByteMem.set_of_ne m 1 (by omega)]
    have hEq := hInside m (m.set (input + length) 1) hSame
    rw [hEach, hEach, hRead] at hEq
    have hWhole : ∀ bs,
        bitsOfBytes bs = [] ++ bitsOfBytes bs ++ [] := by
      simp
    refine crc32c_ne_of_burst ?_ (hWhole _) (hWhole _) ?_ ?_
      previous hEq
    · intro hBytes
      have hByte := ByteMem.eq_of_read_eq hBytes
        (by omega : input ≤ input + length) (by omega)
      rw [ByteMem.set_self] at hByte
      exact absurd hByte (by decide)
    · simp
    · rw [length_bitsOfBytes, ByteMem.length_read]
      omega
  · intro hOk m m' hSame
    rw [hEach, hEach, bytesRead_of_long hOk, hSame]

/- Two bytes at an odd address. -/
theorem ms_crc32c_reads_past :
    ¬ ∀ m m' : ByteMem, m.read 1 2 = m'.read 1 2 →
      msCrc32c .little m 1 2 0#32 = msCrc32c .little m' 1 2 0#32 := by
  have hIff := ms_crc32c_reads_inside_iff .little 1 2
    (by decide) (by decide) 0#32
  exact fun hAll => absurd (hIff.mp hAll) (by decide)

end TankConvertor
