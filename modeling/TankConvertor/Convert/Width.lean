import TankConvertor.Convert.Tank
import TankConvertor.Scan.Accepted

/-
  The sample width, as the swap routine takes it from one
  character and as the scan and the converters take it from
  a run of digits.

  Key definitions include:
    * `WidthAgrees`
    * `WrapsToWidth`, `DigitStands` and `LengthHolds`
    * `ReadAlike`
    * `WidthStands`

  Key theorems include:
    * `bytePerSample_iff`
    * `readAlike_of_settled`
    * `width_agrees_iff`
    * `oddTank_not_agrees`
-/

------------------------------------------------------------
-- The Readers Of The Width
------------------------------------------------------------

namespace TankConvertor

open Trace2Header

/-
  For a message that the routine has accepted: the number
  that the scan and the converters read is the width that it
  was checked and swapped with, and an entry that is stored
  has a known format and the size of its samples.
-/
structure WidthAgrees
    (host : ByteOrder)
    (k : SampleKind)
    (m' : ByteMem)
    (p : Int) : Prop where
  scan : bytePerSample m' p = k.width
  converters :
    (packetAt host m' (tbufOf host m' p)).bytePerSample =
      k.width
  stored :
    (tbufOf host m' p).size ≤ maxTracebufSiz →
      (packetAt host m' (tbufOf host m' p)).format = some k ∧
        ((tbufOf host m' p).size : Int) =
          sizeofTrace2Header + k.width * nsamp host m' p

/-
  The run of digits from `datatype[1]` on is so long that 32
  bits of its number are the width.
-/
def WrapsToWidth
    (k : SampleKind)
    (m' : ByteMem)
    (p : Int) : Prop :=
  2 ^ 32 < digitsValue 0 (m'.read (p + 58) 20) ∧
    digitsValue 0 (m'.read (p + 58) 20) < 2 ^ 63 ∧
    digitsValue 0 (m'.read (p + 58) 20) % 2 ^ 32 = k.width

/-
  `datatype[2]` is no digit, or the run, with the fields and
  samples behind it in the host's order, wraps around.
-/
def DigitStands
    (host o : ByteOrder)
    (k : SampleKind)
    (m : ByteMem)
    (p : Int) : Prop :=
  isdigit (m (p + 59)) = false ∨
    WrapsToWidth k
      (localMessage host o m p (version0 m p) k) p

/-
  The length in bytes is an `int`; a negative count may be
  so large that it wraps around to one that is stored.
-/
def LengthHolds
    (o : ByteOrder)
    (k : SampleKind)
    (m : ByteMem)
    (p : Int) : Prop :=
  -64 ≤ wrap32 (k.width * nsamp o m p) →
    wrap32 (k.width * nsamp o m p) ≤ 4032 →
      -2 ^ 31 ≤ k.width * nsamp o m p

section

variable {host o : ByteOrder} {k : SampleKind}
variable {m m' : ByteMem} {p : Int}

/- What `atoi` makes of the digits. -/
theorem bytePerSample_iff
    (hDigit : datatype1 m' p = k.digit) :
    bytePerSample m' p = k.width ↔
      isdigit (m' (p + 59)) = false ∨ WrapsToWidth k m' p := by
  have hNumber :
      isdigit k.digit ∧ 48 < k.digit.toNat ∧
        k.digit.toNat - 48 = k.width := by
    cases k <;> decide
  rcases hNumber with ⟨hIs, hPos, hWidth⟩
  have hRead :
      m'.read (p + 58) 20 = k.digit :: m'.read (p + 59) 19 := by
    rw [ByteMem.read_succ, ← hDigit, add_assoc]
    rfl
  have hHead : (m'.read (p + 59) 19).headD 0 = m' (p + 59) := by
    rw [ByteMem.read_succ]
    rfl
  have hAtoi := atoi_eq_digit_iff (m'.read (p + 59) 19) hIs hPos
  rw [← hRead, hHead, hWidth] at hAtoi
  unfold bytePerSample WrapsToWidth
  rw [← hAtoi]
  constructor <;> intro h <;> omega

/- The size of an entry that is not too large. -/
theorem size_of_stored
    (hStored : (tbufOf host m' p).size ≤ maxTracebufSiz) :
    ((tbufOf host m' p).size : Int) =
        datalen host m' p + sizeofTrace2Header ∧
      -64 ≤ datalen host m' p ∧ datalen host m' p ≤ 4032 := by
  have hLower : -2 ^ 31 ≤ datalen host m' p := wrap32_lower _
  have hUpper : datalen host m' p < 2 ^ 31 := wrap32_upper _
  have hSize :
      (tbufOf host m' p).size =
        ((datalen host m' p + sizeofTrace2Header) %
          2 ^ 64).toNat := rfl
  unfold sizeofTrace2Header at hSize ⊢
  unfold maxTracebufSiz at hStored
  omega

/- And an entry of such a length is not too large. -/
theorem stored_of_datalen
    (hLow : -64 ≤ datalen host m' p)
    (hHigh : datalen host m' p ≤ 4032) :
    (tbufOf host m' p).size ≤ maxTracebufSiz := by
  have hSize :
      (tbufOf host m' p).size =
        ((datalen host m' p + sizeofTrace2Header) %
          2 ^ 64).toNat := rfl
  unfold sizeofTrace2Header at hSize
  unfold maxTracebufSiz
  omega

/- The message as it is left, on its own. -/
theorem widthAgrees_iff
    (hKind :
      kindOf (datatype0 m' p) (datatype1 m' p) =
        some (host, k))
    (hFew : nsamp host m' p ≤ k.capacity) :
    WidthAgrees host k m' p ↔
      (isdigit (m' (p + 59)) = false ∨ WrapsToWidth k m' p) ∧
        LengthHolds host k m' p := by
  rcases eq_of_kindOf hKind with ⟨hLetter, hDigit⟩
  have hBytes := SampleKind.width_mul_le hFew
  have hDatalen :
      bytePerSample m' p = k.width →
        datalen host m' p =
          wrap32 (k.width * nsamp host m' p) := by
    intro hScan
    unfold datalen
    rw [hScan]
  constructor
  · intro hAgrees
    refine ⟨(bytePerSample_iff hDigit).mp hAgrees.scan, ?_⟩
    intro hLow hHigh
    rw [← hDatalen hAgrees.scan] at hLow hHigh
    have hSize :=
      (hAgrees.stored (stored_of_datalen hLow hHigh)).2
    have hOwn :=
      (size_of_stored (stored_of_datalen hLow hHigh)).1
    omega
  · rintro ⟨hStands, hLength⟩
    have hScan := (bytePerSample_iff hDigit).mpr hStands
    refine ⟨hScan, ?_, ?_⟩
    · rw [bytePerSample_packetAt]
      exact hScan
    · intro hStored
      rcases size_of_stored hStored with ⟨hSize, hLow, hHigh⟩
      refine ⟨?_, ?_⟩
      · have hType :
            datatype0 m' (tbufOf host m' p).offset =
              k.letter host := hLetter
        have hWidth :
            bytePerSample m' (tbufOf host m' p).offset =
              k.width := hScan
        rw [format_packetAt, hType, hWidth, formatOf_letter]
      · rw [hDatalen hScan] at hSize hLow hHigh
        have hReach := hLength hLow hHigh
        rw [hSize, wrap32_of_mem hReach (by omega), add_comm]

/- What an accepted message has once it is swapped. -/
structure AcceptedFront
    (host o : ByteOrder)
    (k : SampleKind)
    (m m' : ByteMem)
    (p : Int) : Prop where
  letter : datatype0 m' p = k.letter host
  digit : datatype1 m' p = k.digit
  next : m' (p + 59) = m (p + 59)
  count : nsamp host m' p = nsamp o m p
  few : nsamp o m p ≤ k.capacity

/- It is the message swapped as a whole. -/
theorem localMessage_of_accepted
    [Rounding]
    (hRc : (swapWavemsg2Makelocal host m p).1 = 0)
    (hKind :
      kindOf (datatype0 m p) (datatype1 m p) = some (o, k)) :
    nsamp o m p ≤ k.capacity ∧
      (swapWavemsg2Makelocal host m p).2 =
        localMessage host o m p (version0 m p) k := by
  rcases success_cases (r := .wavemsg2) hRc with
    ⟨o', k', hKind', hFew, hGood⟩
  obtain ⟨rfl, rfl⟩ : o' = o ∧ k' = k :=
    Prod.mk.inj (Option.some.inj (hKind'.symm.trans hKind))
  exact ⟨hFew, congrArg Prod.snd
    (run_of_success (r := .wavemsg2) hKind hFew hGood host)⟩

theorem acceptedFront
    [Rounding]
    (hRc : (swapWavemsg2Makelocal host m p).1 = 0)
    (hKind :
      kindOf (datatype0 m p) (datatype1 m p) = some (o, k)) :
    AcceptedFront host o k m
      (swapWavemsg2Makelocal host m p).2 p := by
  rcases localMessage_of_accepted hRc hKind with
    ⟨hFew, hMem⟩
  rcases datatype_localMessage host (version0 m p) hKind with
    ⟨hLetter, hDigit⟩
  rw [hMem]
  exact
    { letter := hLetter
      digit := hDigit
      next :=
        localMessage_of_misses host _ hKind (by omega)
          (messageWords_misses (by omega) (by omega))
      count :=
        (readsAs_localMessage host o m p
          (version0 m p) k).nsamp
      few := hFew }

/- An accepted message, as it was before. -/
theorem widthAgrees_iff_of_accepted
    [Rounding]
    (hRc : (swapWavemsg2Makelocal host m p).1 = 0)
    (hKind :
      kindOf (datatype0 m p) (datatype1 m p) = some (o, k)) :
    WidthAgrees host k (swapWavemsg2Makelocal host m p).2 p ↔
      DigitStands host o k m p ∧ LengthHolds o k m p := by
  have hFront :
      AcceptedFront host o k m
        (swapWavemsg2Makelocal host m p).2 p :=
    acceptedFront hRc hKind
  have hMem := (localMessage_of_accepted hRc hKind).2
  rw [widthAgrees_iff
    (by rw [hFront.letter, hFront.digit, kindOf_letter])
    (by rw [hFront.count]; exact hFront.few), hFront.next]
  unfold LengthHolds DigitStands
  rw [hFront.count, hMem]

end

------------------------------------------------------------
-- Runs Of The Scan
------------------------------------------------------------

/-
  The converters know the format of a stored tracebuf, read
  the width that it has, and find the size of its samples.
-/
structure ReadAlike
    (host : ByteOrder)
    (k : SampleKind)
    (m : ByteMem)
    (e : TBuf) : Prop where
  width : (packetAt host m e).bytePerSample = k.width
  format : (packetAt host m e).format = some k
  size :
    (e.size : Int) =
      sizeofTrace2Header + k.width * nsamp host m e.offset
  small : e.size ≤ maxTracebufSiz

/-
  The header at the cursor does not reach back over what is
  stored, and if it is accepted, its digit stands alone and
  its length does not wrap around.
-/
structure WidthStands
    [Rounding]
    (host : ByteOrder)
    (h : ScanState) : Prop where
  size : SizeOk host h
  alone :
    swapCode host h = 0 →
      isdigit (h.mem (h.tankbyte + 59)) = false
  length :
    swapCode host h = 0 →
      ∀ o k,
        kindOf (datatype0 h.mem h.tankbyte)
            (datatype1 h.mem h.tankbyte) = some (o, k) →
          LengthHolds o k h.mem h.tankbyte

section

variable [Rounding]
variable {host : ByteOrder} {m : ByteMem}
variable {e : TBuf} {h : ScanState}

/- A settled entry is read as it was when it was stored. -/
theorem readAlike_of_settled
    (hSettled : SettledAt host m e h)
    (hStands : WidthStands host h) :
    ∃ k, ReadAlike host k m e := by
  have hReach := hSettled.header_le_stop hStands.size
  unfold sizeofTrace2Header at hReach
  rcases hSettled.eq with ⟨hEntry, hCode, hSmall⟩
  have hOffset : e.offset = h.tankbyte := by
    rw [hEntry]
    rfl
  rcases success_cases (r := .wavemsg2) hCode with
    ⟨o, k, hKind, _, _⟩
  have hFront :
      AcceptedFront host o k h.mem (swapMem host h)
        h.tankbyte := acceptedFront hCode hKind
  have hAgrees :
      WidthAgrees host k (swapMem host h) h.tankbyte :=
    (widthAgrees_iff_of_accepted hCode hKind).mpr
      ⟨Or.inl (hStands.alone hCode),
        hStands.length hCode o k hKind⟩
  -- only header bytes are read, and none of them has changed
  have hSame :
      ∀ i, i < h.tankbyte + 64 → m i = swapMem host h i :=
    fun i hLt => hSettled.bytes i (by omega)
  have hLetter : datatype0 m h.tankbyte = k.letter host :=
    (hSame _ (by omega)).trans hFront.letter
  have hDigit : datatype1 m h.tankbyte = k.digit :=
    (hSame _ (by omega)).trans hFront.digit
  have hAlone : isdigit (m (h.tankbyte + 59)) = false := by
    rw [hSame _ (by omega), hFront.next]
    exact hStands.alone hCode
  have hWidth : bytePerSample m h.tankbyte = k.width :=
    (bytePerSample_iff hDigit).mpr (Or.inl hAlone)
  have hCount :
      nsamp host m h.tankbyte =
        nsamp host (swapMem host h) h.tankbyte := by
    unfold nsamp
    rw [ByteMem.read_congr (fun i _ hHigh =>
      hSame i (by push_cast at hHigh; omega))]
  refine ⟨k, ?_, ?_, ?_, hSmall⟩
  · rw [bytePerSample_packetAt, hOffset]
    exact hWidth
  · rw [format_packetAt, hOffset, hLetter, hWidth,
      formatOf_letter]
  · rw [hEntry] at hSmall
    rw [hOffset, hCount, hEntry]
    exact (hAgrees.stored hSmall).2

end

/-
  An accepted message has one width for all its readers
  exactly when the digit that was checked stands alone, and
  no negative length wraps around.  The converters, which
  read once the scan has ended, agree with it in every run
  whose headers are of that kind.
-/
theorem width_agrees_iff
    [Rounding]
    (host : ByteOrder) :
    (∀ o k m p,
      (swapWavemsg2Makelocal host m p).1 = 0 →
        kindOf (datatype0 m p) (datatype1 m p) = some (o, k) →
          (WidthAgrees host k
              (swapWavemsg2Makelocal host m p).2 p ↔
            DigitStands host o k m p ∧ LengthHolds o k m p)) ∧
    ∀ fsize m,
      (∀ h, (scanLoop host fsize).Head (scanInit m) h →
        WidthStands host h) →
      ∀ r, (scanLoop host fsize).Ends (scanInit m) r →
        ∀ n ∈ r.traceList, ∀ e ∈ n.stored,
          ∃ k, ReadAlike host k r.mem e := by
  refine ⟨fun o k m p => widthAgrees_iff_of_accepted, ?_⟩
  intro fsize m hStands r hEnds n hNode e he
  rcases settled_of_ends (fun h hHead => (hStands h hHead).size)
      hEnds hNode he with
    ⟨h, hHead, hSettled⟩
  exact readAlike_of_settled hSettled (hStands h hHead)

attribute [local instance] Rounding.nearest

/- The two characters of "i4" with a terminator agree. -/
theorem width_agrees_header :
    let m :=
      mapTank
        (oneHeader (List.replicate 4 0)
          (List.replicate 8 0))
        (fun _ => 0)
    WidthAgrees .little .i4
        (swapWavemsg2Makelocal .little m 0).2 0 ∧
      ∀ r, (scanLoop .little 64).Ends (scanInit m) r →
        ∀ n ∈ r.traceList, ∀ e ∈ n.stored,
          ∃ k, ReadAlike .little k r.mem e := by
  intro m
  have hKind :
      kindOf (datatype0 m 0) (datatype1 m 0) =
        some (.little, .i4) := by decide +kernel
  have hLength : LengthHolds .little .i4 m 0 := by
    intro _ _
    decide +kernel
  constructor
  · exact
      ((width_agrees_iff .little).1 .little .i4 m 0
        (by decide +kernel) hKind).mpr
        ⟨Or.inl (by decide +kernel), hLength⟩
  · apply (width_agrees_iff .little).2 64 m
    intro h hHead
    rw [eq_scanInit_of_head (by decide +kernel) hHead]
    refine ⟨?_, fun _ => by decide +kernel, ?_⟩
    · intro o k hSame _
      cases Option.some.inj (hKind.symm.trans hSame)
      decide +kernel
    · intro _ o k hSame
      cases Option.some.inj (hKind.symm.trans hSame)
      exact hLength

/- A header whose datatype is "i42". -/
def oddTank : List UInt8 :=
  (oneHeader (List.replicate 4 0) (List.replicate 8 0)).set 59
    (ch '2')

/- It is accepted with width 4, and read with width 42. -/
theorem oddTank_not_agrees :
    (swapWavemsg2Makelocal .little
      (mapTank oddTank (fun _ => 0)) 0).1 = 0 ∧
    ¬ WidthAgrees .little .i4
      (swapWavemsg2Makelocal .little
        (mapTank oddTank (fun _ => 0)) 0).2 0 := by
  refine ⟨by decide +kernel, ?_⟩
  intro hAgrees
  have hScan := hAgrees.scan
  revert hScan
  decide +kernel

end TankConvertor
