import TankConvertor.Record.RoundTrip

/-
  Where packing stops, and the records of which `ms3_detect`
  does not find the length: those of a big-endian host, and
  those without samples.

  Key theorems include:
    * `pack_stops_at_jump`
    * `detect_packed_iff`
    * `empty_record_detected_iff`
-/

------------------------------------------------------------
-- Where Packing Stops
------------------------------------------------------------

namespace TankConvertor

open BitFields

/- A time of 64 bits can be written. -/
theorem nstime_isSome
    {t : Int}
    (hLow : -2 ^ 63 ≤ t)
    (hHigh : t < 2 ^ 63) :
    msNstime2time t ≠ none := by
  rcases msNstime2time_spec hLow hHigh with ⟨p, hParts, -⟩
  rw [hParts]
  exact Option.some_ne_none p

theorem header_isSome
    {period : Nat → Nat}
    {msr : Ms3Record}
    (hStorable : msr.Storable period)
    (hRoom :
      (ms3fsdhLength + msr.sid.length + msr.extra.length : Nat) ≤
        msr.reclen)
    (hReclen : msr.reclen ≤ maxreclen)
    (rawrec : List UInt8) :
    msr3PackHeader3 period rawrec msr ≠ none := by
  have hSid := hStorable.sidLength
  have hTime :=
    nstime_isSome hStorable.start.1 hStorable.start.2
  have hMin : ¬ (msr.reclen < minreclen ∨
      maxreclen < msr.reclen) := by
    unfold minreclen
    unfold ms3fsdhLength at hRoom
    omega
  unfold lmSidlen at hSid
  unfold msr3PackHeader3
  rw [if_neg hMin, if_neg (not_lt.mpr hRoom)]
  cases hDate : msNstime2time msr.starttime with
  | none => exact (hTime hDate).elim
  | some time =>
      dsimp only
      rw [if_neg (by omega)]
      exact Option.some_ne_none _

/- A wide difference in what follows is one of the samples. -/
theorem jump_of_drop
    {xs : List Int}
    {k : Nat}
    (hJump :
      ∃ d ∈ differences (xs.drop k) 0, 30 < bitwidth d) :
    ∃ i, k ≤ i ∧ i + 1 < xs.length ∧
      30 < bitwidth (diffAt xs i) := by
  rcases hJump with ⟨d, hMem, hWide⟩
  rcases List.mem_cons.mp hMem with rfl | hMem
  · exact absurd hWide (by decide)
  · rcases List.mem_map.mp hMem with ⟨j, hj, rfl⟩
    rw [List.mem_range, List.length_drop] at hj
    have hShift : diffAt (xs.drop k) j = diffAt xs (k + j) := by
      unfold diffAt
      simp only [List.getD_eq_getElem?_getD, List.getElem?_drop,
        Nat.add_assoc]
    exact ⟨k + j, Nat.le_add_right k j, by omega, hShift ▸ hWide⟩

/-
  Steim2 records of integers are refused for one reason only:
  a jump of more than 30 bits behind what has been packed.
-/
theorem pack_stops_at_jump
    {host : ByteOrder}
    {period : Nat → Nat}
    {msr : Ms3Record}
    (hStorable : msr.Storable period)
    {xs : List Int}
    (hXs : msr.samples = .int32s xs)
    (hSome : xs ≠ [])
    (hEncoding : msr.encoding = .steim2)
    (hRoom :
      (ms3fsdhLength + msr.sid.length + msr.extra.length +
          frameBytes : Nat) ≤
        msr.reclen)
    (hReclen : msr.reclen ≤ maxreclen)
    (rawrec : List UInt8)
    (flush : Bool)
    {r : PackResult}
    (hRun : msr3PackMseed3 host period rawrec flush msr = r)
    (hFail : r.code = -1) :
    ∃ i, r.packedsamples ≤ i ∧ i + 1 < xs.length ∧
      30 < bitwidth (diffAt xs i) := by
  have hLen : msr.samples.length = xs.length := by
    rw [hXs]
    rfl
  have hPos : 0 < msr.samples.length := by
    rw [hLen]
    exact List.length_pos_of_ne_nil hSome
  have hHeader := header_isSome hStorable (by omega) hReclen rawrec
  rcases msr3PackMseed3_spec hStorable hPos hRun with
    ⟨hNone, -⟩ | ⟨h, maxdatabytes, hPack, hMax, -, -, hCode⟩
  · exact (hHeader hNone).elim
  rcases hCode with ⟨hCode, -⟩ | ⟨-, hLess, hStop⟩
  · omega
  rcases hStop with hNone | hNone
  · have hOffset := (msr3PackHeader3_spec hPack).1.dataoffset
    have hFrame : frameBytes ≤ maxdatabytes := by omega
    rw [hXs, hEncoding] at hNone
    unfold msrPackData MsSamples.drop at hNone
    dsimp only at hNone
    rw [if_neg (not_lt.mpr hFrame : ¬ maxdatabytes < 64)] at hNone
    have hLeft : xs.drop r.packedsamples ≠ [] := by
      rw [Ne, List.drop_eq_nil_iff]
      omega
    exact jump_of_drop (wide_of_encode_none hLeft hFrame hNone)
  · exact (nstime_isSome (msr.sampleTime_range _).1
      (msr.sampleTime_range _).2 hNone).elim

/- Two samples too far apart, in a record that has room. -/
def jumpRecord : Ms3Record :=
  { pairRecord with samples := .int32s [0, 1073741824] }

theorem jumpRecord_storable :
    jumpRecord.Storable (fun _ => 0) :=
  { pairRecord_storable with
    samples := by
      show ∀ x ∈ [(0 : Int), 1073741824],
        -2 ^ 31 ≤ x ∧ x < 2 ^ 31
      decide }

/- The jump between them is found. -/
theorem pack_stops_at_jump_pair :
    ∃ i, i + 1 < 2 ∧
      30 < bitwidth (diffAt [0, 1073741824] i) := by
  have hFail :
      (msr3PackMseed3 .little (fun _ => 0) [] true
        jumpRecord).code = -1 := by
    decide +kernel
  rcases pack_stops_at_jump jumpRecord_storable rfl (by decide)
      rfl (by decide) (by decide) [] true rfl hFail with
    ⟨i, -, hInside, hWide⟩
  exact ⟨i, hInside, hWide⟩

------------------------------------------------------------
-- Lengths That Are Not Detected
------------------------------------------------------------

/- A length of whole frames is not the same in both orders. -/
theorem ho2u_frames_ne
    {frames : Nat}
    (hSome : 0 < frames)
    (hFew : frames < 256) :
    ho2u (64 * frames) true ≠ 64 * frames := by
  unfold ho2u
  rw [if_pos rfl]
  have hSplit := Nat.div_add_mod (64 * frames) 256
  have hHigh : 64 * frames / 256 % 256 = 64 * frames / 256 :=
    Nat.mod_eq_of_lt (by omega)
  rw [hHigh]
  omega

/- The sum is right when the two lengths in it are. -/
theorem detected_length_iff
    {sid : Nat}
    (hSid : sid < lmSidlen)
    (extra n : Nat)
    (swapflag : Bool) :
    wrap32
          (ms3fsdhLength + sid + ho2u extra swapflag +
            ho2u n swapflag : Nat) =
        ((ms3fsdhLength + sid + extra + n : Nat) : Int) ↔
      ho2u extra swapflag + ho2u n swapflag = extra + n := by
  have hFirst := ho2u_lt extra swapflag
  have hThen := ho2u_lt n swapflag
  generalize ho2u extra swapflag = a at *
  generalize ho2u n swapflag = b at *
  have hWrap : wrap32 (ms3fsdhLength + sid + a + b : Nat) =
      ((ms3fsdhLength + sid + a + b : Nat) : Int) := by
    unfold ms3fsdhLength
    unfold lmSidlen at hSid
    exact wrap32_of_mem (by omega) (by omega)
  rw [hWrap]
  omega

theorem detect_record_iff
    {host : ByteOrder}
    {period : Nat → Nat}
    {msr : Ms3Record}
    {h : Ms3Header}
    {c : Chunk}
    (hStorable : msr.Storable period)
    (hHeader : HeaderOf period msr h)
    (hTime : c.time.Stored)
    (hShort : c.payload.length < 2 ^ 16)
    (rest : List UInt8) :
    ms3Detect host (c.record host h ++ rest) =
        some ((c.record host h).length : Int) ↔
      ho2u msr.extra.length (swap3 host) +
          ho2u c.payload.length (swap3 host) =
        msr.extra.length + c.payload.length := by
  rw [detect_record hStorable hHeader hTime hShort,
    Chunk.length_record hStorable hHeader hTime hShort,
    hHeader.dataoffset, Option.some.injEq]
  exact detected_length_iff hStorable.sidLength _ _ _

/-
  The length of a Steim2 record without extra headers, which
  `ms3_detect` finds on the hosts that need no swapping, and
  on no others.
-/
theorem detect_packed_iff
    {host : ByteOrder}
    {period : Nat → Nat}
    {msr : Ms3Record}
    (hStorable : msr.Storable period)
    (hSome : 0 < msr.samples.length)
    (hEncoding : msr.encoding = .steim2)
    (hExtra : msr.extra = [])
    (hReclen : msr.reclen ≤ 16384)
    (rawrec : List UInt8)
    (flush : Bool)
    {r : PackResult}
    (hRun : msr3PackMseed3 host period rawrec flush msr = r)
    {record : List UInt8}
    (hRecord : record ∈ r.records)
    (rest : List UInt8) :
    ms3Detect host (record ++ rest) = some (record.length : Int) ↔
      host = .little := by
  rcases msr3PackMseed3_spec hStorable hSome hRun with
    ⟨-, rfl⟩ |
    ⟨h, maxdatabytes, hPack, hMax, -, ⟨cs, hChunks, hRecords⟩, -⟩
  · cases hRecord
  rw [hRecords] at hRecord
  rcases List.mem_map.mp hRecord with ⟨c, hc, rfl⟩
  rcases hChunks.mem hc with ⟨k, hInside, hTime, hData⟩
  have hHeader := (msr3PackHeader3_spec hPack).1
  have hDate := Ms3Record.stored hTime
  have hLeft : 0 < (msr.samples.drop k).length := by
    rw [MsSamples.length_drop]
    exact Nat.sub_pos_of_lt hInside
  have hMost := (msrPackData_spec hLeft (hStorable.samples.drop k)
    hData).2.2.1
  rcases (msrPackData_length hLeft hData).2.1 hEncoding with
    ⟨frames, hFrames, hPayload, -⟩
  have hFew : frames < 256 := by
    have hOffset := hHeader.dataoffset
    unfold ms3fsdhLength at hOffset
    rw [hPayload] at hMost
    omega
  have hShort : c.payload.length < 2 ^ 16 := by
    rw [hPayload]
    omega
  rw [detect_record_iff hStorable hHeader hDate hShort, hExtra,
    hPayload]
  cases host with
  | little =>
      refine iff_of_true ?_ rfl
      have hSwap : swap3 .little = false := by decide
      unfold ho2u
      rw [hSwap, if_neg Bool.false_ne_true,
        if_neg Bool.false_ne_true, List.length_nil,
        Nat.mod_eq_of_lt (by omega : 64 * frames < 2 ^ 16)]
      omega
  | big =>
      refine iff_of_false (fun hSame => ?_) nofun
      have hNe := ho2u_frames_ne hFrames hFew
      have hSwap : swap3 .big = true := by decide
      have hZero : ho2u ([] : List UInt8).length true = 0 := by
        decide
      rw [hSwap, hZero, List.length_nil, Nat.zero_add,
        Nat.zero_add] at hSame
      exact hNe hSame

/- The record of two samples, packed by a big-endian host. -/
theorem detect_packed_iff_big :
    ∃ record ∈
        (msr3PackMseed3 .big (fun _ => 0) [] true
          pairRecord).records,
      ms3Detect .big (record ++ []) ≠ some (record.length : Int) := by
  have hSome :
      0 < (msr3PackMseed3 .big (fun _ => 0) [] true
        pairRecord).records.length := by
    decide +kernel
  rcases List.exists_mem_of_length_pos hSome with
    ⟨record, hRecord⟩
  refine ⟨record, hRecord, fun hDetect => ?_⟩
  have hLittle := (detect_packed_iff pairRecord_storable
    (by decide) rfl rfl (by decide) [] true rfl hRecord []).mp
      hDetect
  exact absurd hLittle (by decide)

------------------------------------------------------------
-- Records without Samples
------------------------------------------------------------

/- The two fields that `msr3_pack_header3` does not set. -/
theorem msr3PackHeader3_memory
    {period : Nat → Nat}
    {rawrec : List UInt8}
    {msr : Ms3Record}
    {h : Ms3Header}
    (hPack : msr3PackHeader3 period rawrec msr = some h) :
    h.numsamples = (rawrec.drop 24).take 4 ∧
      h.datalength = (rawrec.drop 36).take 4 := by
  unfold msr3PackHeader3 at hPack
  split at hPack
  · cases hPack
  split at hPack
  · cases hPack
  split at hPack
  · cases hPack
  split at hPack
  · cases hPack
  obtain rfl := Option.some.inj hPack
  exact ⟨rfl, rfl⟩

theorem empty_header_fits
    {period : Nat → Nat}
    {rawrec : List UInt8}
    {msr : Ms3Record}
    {h : Ms3Header}
    (hStorable : msr.Storable period)
    (hMemory : (rawrec.length : Int) = msr.reclen)
    (hPack : msr3PackHeader3 period rawrec msr = some h) :
    ({ h with encoding := 0 } : Ms3Header).Fits := by
  rcases msr3PackHeader3_spec hPack with
    ⟨hHeader, hTime, hRoom, -⟩
  rcases msr3PackHeader3_memory hPack with ⟨hNumber, hBytes⟩
  have hOffset := hHeader.dataoffset
  unfold ms3fsdhLength at hOffset
  have hLong : 40 ≤ rawrec.length := by omega
  refine ⟨?_, ?_, Nat.zero_lt_succ 255, ?_, ?_, ?_, ?_, ?_, ?_,
    ?_⟩
  · exact hHeader.flags ▸ hStorable.flags
  · exact stored_of_nstime hStorable.start.1
      hStorable.start.2 hTime
  · exact hHeader.samplerate ▸ hStorable.samplerate
  · show h.numsamples.length = 4
    rw [hNumber, List.length_take, List.length_drop]
    omega
  · show h.crc < 2 ^ 32
    rw [hHeader.crc]
    exact Nat.two_pow_pos 32
  · exact hHeader.pubversion ▸ hStorable.pubversion
  · show h.datalength.length = 4
    rw [hBytes, List.length_take, List.length_drop]
    omega
  · have hLen := hStorable.sidLength
    show h.sid.length < 256
    rw [hHeader.sid]
    unfold lmSidlen at hLen
    omega
  · exact hHeader.extra ▸ hStorable.extraLength

/- A length that stands for itself, and one more in 32 bits. -/
theorem wrap32_add_eq_iff
    {n v : Nat}
    (hn : n < 2 ^ 31)
    (hv : v < 2 ^ 32) :
    wrap32 (n + v : Nat) = (n : Int) ↔ v = 0 := by
  unfold wrap32
  omega

theorem value_zero_iff
    {bs : List UInt8}
    (hLength : bs.length = 4) :
    ByteOrder.little.value bs = 0 ↔ bs = [0, 0, 0, 0] := by
  constructor
  · intro hZero
    exact ByteOrder.little.value_inj hLength hZero
  · rintro rfl
    rfl

theorem value_word_lt
    {bs : List UInt8}
    (hLength : bs.length = 4) :
    ByteOrder.little.value bs < 2 ^ 32 := by
  match bs, hLength with
  | [a, b, c, d], _ =>
      have ha := a.toNat_lt
      have hb := b.toNat_lt
      have hc := c.toNat_lt
      have hd := d.toNat_lt
      simp only [ByteOrder.value, leNat]
      omega

/-
  A record without samples has the number of samples and the
  length that stood in its memory before, so that it is
  found only where that length was zero.
-/
theorem empty_record_detected_iff
    {period : Nat → Nat}
    {msr : Ms3Record}
    (hStorable : msr.Storable period)
    (hEmpty : msr.samples.length = 0)
    {rawrec : List UInt8}
    (hMemory : (rawrec.length : Int) = msr.reclen)
    (flush : Bool)
    {r : PackResult}
    (hRun : msr3PackMseed3 .little period rawrec flush msr = r)
    {record : List UInt8}
    (hRecord : record ∈ r.records)
    (rest : List UInt8) :
    (record.drop 24).take 4 = (rawrec.drop 24).take 4 ∧
      (record.drop 36).take 4 = (rawrec.drop 36).take 4 ∧
      (ms3Detect .little (record ++ rest) =
          some (record.length : Int) ↔
        (rawrec.drop 36).take 4 = [0, 0, 0, 0]) := by
  unfold msr3PackMseed3 at hRun
  split at hRun
  case h_1 =>
    subst hRun
    cases hRecord
  case h_2 h hPack =>
    rw [if_pos hEmpty] at hRun
    subst hRun
    obtain rfl := List.mem_singleton.mp hRecord
    have hFits := empty_header_fits hStorable hMemory hPack
    have hHeader := (msr3PackHeader3_spec hPack).1
    have hMemories := msr3PackHeader3_memory hPack
    have hOffset := hHeader.dataoffset
    have hSid := hStorable.sidLength
    have hExtra := hStorable.extraLength
    have hPlain :
        ho2u msr.extra.length (swap3 .little) =
          msr.extra.length := by
      unfold ho2u
      rw [if_neg (by decide), Nat.mod_eq_of_lt hExtra]
    have hField : h.datalength.length = 4 := hFits.datalength
    have hLow : h.dataoffset < 2 ^ 31 := by
      unfold ms3fsdhLength at hOffset
      unfold lmSidlen at hSid
      omega
    have hSame :
        ms3fsdhLength + h.sid.length +
            ho2u h.extra.length (swap3 .little) =
          h.dataoffset := by
      rw [hHeader.extra, hHeader.sid, hPlain, hOffset]
    have hChecked := hFits.checked .little []
    have hNumber :=
      hChecked.block (i := 11) (k := 24) (w := 4) .little []
        rfl rfl hFits.numsamples
    have hBytes :=
      hChecked.block (i := 16) (k := 36) (w := 4) .little []
        rfl rfl hFits.datalength
    rw [← finishRecord_eq] at hNumber hBytes
    refine ⟨hNumber.trans hMemories.1, hBytes.trans hMemories.2,
      ?_⟩
    rw [detect_finishRecord hFits, length_finishRecord hFits,
      Option.some.injEq, ← hMemories.2, ← value_zero_iff hField]
    dsimp only
    rw [hSame]
    exact wrap32_add_eq_iff hLow (value_word_lt hField)

/- No samples, in memory that is not zero. -/
def emptyRecord : Ms3Record :=
  { pairRecord with samples := .int32s [] }

theorem emptyRecord_storable :
    emptyRecord.Storable (fun _ => 0) :=
  { pairRecord_storable with
    samples := List.forall_mem_nil _ }

/- The record is not found again. -/
theorem empty_record_detected_iff_pair :
    ∃ record,
      (msr3PackMseed3 .little (fun _ => 0)
          (List.replicate 256 170) true emptyRecord).records =
        [record] ∧
        ms3Detect .little (record ++ []) ≠
          some (record.length : Int) := by
  have hOne :
      (msr3PackMseed3 .little (fun _ => 0)
        (List.replicate 256 170) true
        emptyRecord).records.length = 1 := by
    decide +kernel
  rcases List.length_eq_one_iff.mp hOne with ⟨record, hRecords⟩
  have hRecord : record ∈
      (msr3PackMseed3 .little (fun _ => 0)
        (List.replicate 256 170) true emptyRecord).records := by
    rw [hRecords]
    exact List.mem_singleton_self record
  refine ⟨record, hRecords, fun hDetect => ?_⟩
  have hMemory :
      ((List.replicate 256 (170 : UInt8)).length : Int) =
        emptyRecord.reclen := by
    rw [List.length_replicate]
    rfl
  have hZero := (empty_record_detected_iff emptyRecord_storable rfl
    hMemory true rfl hRecord []).2.2.mp hDetect
  exact absurd hZero (by decide)

end TankConvertor
