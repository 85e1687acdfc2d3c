import TankConvertor.Record.Layout
import TankConvertor.Steim.RoundTrip

/-
  The run of `msr3_pack_mseed3` over the samples: the records
  it hands over carry them piece by piece, in order, and
  every piece decodes to what was packed.

  Key definitions include:
    * `Chunk`
    * `PacksChunks`
    * `HeaderOf`

  Key theorems include:
    * `msrPackData_spec`
    * `packLoop_spec`
    * `msr3PackMseed3_spec`
-/

------------------------------------------------------------
-- Samples
------------------------------------------------------------

namespace TankConvertor

open BitFields

namespace MsSamples

def take (n : Nat) : MsSamples → MsSamples
| .int32s xs => .int32s (xs.take n)
| .floats xs => .floats (xs.take n)
| .doubles xs => .doubles (xs.take n)

@[simp] theorem length_drop
    (n : Nat)
    (samples : MsSamples) :
    (samples.drop n).length = samples.length - n := by
  cases samples <;> simp [drop, length]

@[simp] theorem length_take
    (n : Nat)
    (samples : MsSamples) :
    (samples.take n).length = min n samples.length := by
  cases samples <;> simp [take, length]

theorem drop_zero
    (samples : MsSamples) :
    samples.drop 0 = samples := by
  cases samples <;> simp [drop]

/- Every value is one of its type. -/
def Fits : MsSamples → Prop
| .int32s xs => ∀ x ∈ xs, -2 ^ 31 ≤ x ∧ x < 2 ^ 31
| .floats _ => True
| .doubles xs => ∀ x ∈ xs, x < 2 ^ 64

theorem Fits.drop
    {samples : MsSamples}
    (hFits : samples.Fits)
    (n : Nat) :
    (samples.drop n).Fits := by
  cases samples with
  | int32s xs => exact fun x hx => hFits x (List.mem_of_mem_drop hx)
  | floats xs => trivial
  | doubles xs => exact fun x hx => hFits x (List.mem_of_mem_drop hx)

end MsSamples

------------------------------------------------------------
-- Words Of One Length
------------------------------------------------------------

theorem encodeFixed_eq
    (host : ByteOrder)
    (swapflag : Bool)
    {w : Nat}
    (hWidth : 0 < w)
    (xs : List Nat)
    (outputlength : Nat) :
    encodeFixed host swapflag w xs outputlength =
      (xs.take (outputlength / w)).map
        (storeField host swapflag w) := by
  induction xs generalizing outputlength with
  | nil => simp [encodeFixed]
  | cons x xs ih =>
      unfold encodeFixed
      split
      case isTrue hRoom =>
        obtain ⟨k, hk⟩ : ∃ k, outputlength / w = k + 1 :=
          ⟨outputlength / w - 1, by
            have hSome := Nat.div_pos hRoom hWidth
            omega⟩
        have hRest : (outputlength - w) / w = k := by
          have hStep := Nat.div_eq_sub_div hWidth hRoom
          omega
        rw [ih, hk, hRest]
        rfl
      case isFalse hRoom =>
        rw [Nat.div_eq_of_lt (not_le.mp hRoom)]
        rfl

theorem decodeFixed_map
    (host : ByteOrder)
    (swapflag : Bool)
    {w : Nat}
    {xs : List Nat}
    (hFits : ∀ x ∈ xs, x < 256 ^ w) :
    decodeFixed host swapflag w xs.length
        (xs.map (storeField host swapflag w)).flatten =
      xs := by
  induction xs with
  | nil => rfl
  | cons x xs ih =>
      have hHere := loadField_storeField host swapflag
        (hFits x List.mem_cons_self)
      have hRest := ih
        (fun y hy => hFits y (List.mem_cons_of_mem x hy))
      rw [List.length_cons, List.map_cons, List.flatten_cons,
        decodeFixed,
        List.take_left' (length_storeField host swapflag w x),
        List.drop_left' (length_storeField host swapflag w x),
        hHere, hRest]

/- Words of one length, as many as there is room for. -/
theorem packFixed_eq
    {host : ByteOrder}
    {swapflag : Bool}
    {w : Nat}
    (hWidth : 0 < w)
    {xs : List Nat}
    {maxdatabytes n : Nat}
    {bs : List UInt8}
    (hPack :
      packFixed host swapflag w xs maxdatabytes = some (n, bs)) :
    n = min (maxdatabytes / w) xs.length ∧ w ≤ maxdatabytes ∧
      bs = ((xs.take n).map (storeField host swapflag w)).flatten := by
  unfold packFixed at hPack
  split at hPack
  case isTrue => cases hPack
  case isFalse hRoom =>
    rw [encodeFixed_eq host swapflag hWidth] at hPack
    obtain ⟨hCount, rfl⟩ := Prod.mk.inj (Option.some.inj hPack)
    rw [List.length_map, List.length_take] at hCount
    refine ⟨hCount.symm, not_lt.mp hRoom, ?_⟩
    rw [← hCount, ← List.take_take, List.take_length]

theorem packFixed_length
    {host : ByteOrder}
    {swapflag : Bool}
    {w : Nat}
    (hWidth : 0 < w)
    {xs : List Nat}
    {maxdatabytes n : Nat}
    {bs : List UInt8}
    (hPack :
      packFixed host swapflag w xs maxdatabytes = some (n, bs)) :
    n ≤ maxdatabytes ∧ bs.length = w * n := by
  rcases packFixed_eq hWidth hPack with ⟨hCount, -, rfl⟩
  have hMost := Nat.div_le_self maxdatabytes w
  have hLen : (xs.take n).length = n := by
    rw [List.length_take]
    omega
  refine ⟨by omega, ?_⟩
  rw [Blocks.length_flatten (n := w), List.length_map, hLen]
  intro word hWord
  rcases List.mem_map.mp hWord with ⟨x, -, rfl⟩
  exact length_storeField host swapflag w x

theorem decodeFixed_packFixed
    {host : ByteOrder}
    {swapflag : Bool}
    {w : Nat}
    (hWidth : 0 < w)
    {xs : List Nat}
    (hFits : ∀ x ∈ xs, x < 256 ^ w)
    {maxdatabytes n : Nat}
    {bs : List UInt8}
    (hPack :
      packFixed host swapflag w xs maxdatabytes = some (n, bs)) :
    decodeFixed host swapflag w n bs = xs.take n := by
  rcases packFixed_eq hWidth hPack with ⟨hCount, -, rfl⟩
  have hSome : ∀ x ∈ xs.take n, x < 256 ^ w :=
    fun x hx => hFits x (List.mem_of_mem_take hx)
  have hBack := decodeFixed_map host swapflag hSome
  have hLen : (xs.take n).length = n := by
    rw [List.length_take]
    omega
  rwa [hLen] at hBack

theorem map_wrap32_lowBits
    {xs : List Int}
    (hFits : ∀ x ∈ xs, -2 ^ 31 ≤ x ∧ x < 2 ^ 31) :
    (xs.map (lowBits 32)).map (fun v : Nat => wrap32 v) = xs := by
  induction xs with
  | nil => rfl
  | cons x xs ih =>
      have hHere := hFits x List.mem_cons_self
      rw [List.map_cons, List.map_cons,
        ih (fun y hy => hFits y (List.mem_cons_of_mem x hy)),
        wrap32_lowBits hHere.1 hHere.2]

theorem map_ofNat_toNat
    (xs : List UInt32) :
    (xs.map UInt32.toNat).map UInt32.ofNat = xs := by
  induction xs with
  | nil => rfl
  | cons x xs ih =>
      rw [List.map_cons, List.map_cons, ih, UInt32.ofNat_toNat]

/-
  What `msr_pack_data` takes of the samples is what
  `ms_decode_data` makes of the bytes, and it takes some.
-/
theorem msrPackData_spec
    {host : ByteOrder}
    {encoding : Encoding}
    {samples : MsSamples}
    (hSome : 0 < samples.length)
    (hFits : samples.Fits)
    {maxdatabytes n : Nat}
    {bs : List UInt8}
    (hPack :
      msrPackData host encoding samples maxdatabytes =
        some (n, bs)) :
    0 < n ∧ n ≤ samples.length ∧ bs.length ≤ maxdatabytes ∧
      msDecodeData host encoding bs n = .ok (samples.take n) := by
  have hFixed : ∀ {w : Nat} {xs : List Nat}, 0 < w →
      0 < xs.length →
      packFixed host (swap3 host) w xs maxdatabytes =
        some (n, bs) →
      0 < n ∧ n ≤ xs.length ∧ bs.length ≤ maxdatabytes := by
    intro w xs hWidth hSome hPack
    rcases packFixed_eq hWidth hPack with ⟨hCount, hRoom, -⟩
    have hLen := (packFixed_length hWidth hPack).2
    have hWords := Nat.div_pos hRoom hWidth
    refine ⟨by omega, by omega, ?_⟩
    rw [hLen, hCount]
    exact (Nat.mul_le_mul_left w (Nat.min_le_left _ _)).trans
      (Nat.mul_div_le maxdatabytes w)
  unfold msrPackData at hPack
  split at hPack
  case h_1 xs =>
    have hWords : ∀ x ∈ xs.map (lowBits 32), x < 256 ^ 4 := by
      intro x hx
      rcases List.mem_map.mp hx with ⟨y, -, rfl⟩
      exact (lowBits_lt 32 y).trans_eq (by norm_num)
    have hSize := hFixed (by decide)
      (by rw [List.length_map]; exact hSome) hPack
    have hBack := decodeFixed_packFixed (by decide) hWords hPack
    rw [List.length_map] at hSize
    refine ⟨hSize.1, hSize.2.1, hSize.2.2, ?_⟩
    simp only [msDecodeData, hBack, MsSamples.take]
    rw [List.map_take, map_wrap32_lowBits hFits]
  case h_2 xs =>
    have hWords : ∀ x ∈ xs.map UInt32.toNat, x < 256 ^ 4 := by
      intro x hx
      rcases List.mem_map.mp hx with ⟨y, -, rfl⟩
      exact y.toNat_lt.trans_eq (by norm_num)
    have hSize := hFixed (by decide)
      (by rw [List.length_map]; exact hSome) hPack
    have hBack := decodeFixed_packFixed (by decide) hWords hPack
    rw [List.length_map] at hSize
    refine ⟨hSize.1, hSize.2.1, hSize.2.2, ?_⟩
    simp only [msDecodeData, hBack, MsSamples.take]
    rw [List.map_take, map_ofNat_toNat]
  case h_3 xs =>
    have hWords : ∀ x ∈ xs, x < 256 ^ 8 := fun x hx =>
      (hFits x hx).trans_eq (by norm_num)
    have hSize := hFixed (by decide) hSome hPack
    have hBack := decodeFixed_packFixed (by decide) hWords hPack
    refine ⟨hSize.1, hSize.2.1, hSize.2.2, ?_⟩
    simp only [msDecodeData, hBack, MsSamples.take]
  case h_4 xs =>
    split at hPack
    case isTrue => cases hPack
    case isFalse hRoom =>
      have hInput : xs ≠ [] := List.ne_nil_of_length_pos hSome
      rcases msrEncodeSteim2_spec hInput (not_lt.mp hRoom) hPack
        with ⟨ws, wss, dss, dsss, rfl, hRun⟩
      have hPos := hRun.pos hInput
      have hBack := hRun.decode
        (rfl : wordOrder host (!swap3 host) = _) hInput hFits
        (by omega : 0 < n * 4)
      refine ⟨hPos, hRun.inside, hRun.length_le, ?_⟩
      simp only [msDecodeData, hBack, MsSamples.take]
      rw [if_pos (List.length_take_of_le hRun.inside)]
  case h_5 => cases hPack

/- Bytes of a sample, where all have the same number. -/
def Encoding.samplebytes : Encoding → Nat
| .int32 => 4
| .float32 => 4
| .float64 => 8
| .steim2 => 0

/- How long the payload is, and how many samples it has. -/
theorem msrPackData_length
    {host : ByteOrder}
    {encoding : Encoding}
    {samples : MsSamples}
    (hSome : 0 < samples.length)
    {maxdatabytes n : Nat}
    {bs : List UInt8}
    (hPack :
      msrPackData host encoding samples maxdatabytes =
        some (n, bs)) :
    n ≤ 105 * maxdatabytes ∧
      (encoding = .steim2 →
        ∃ frames, 0 < frames ∧ bs.length = 64 * frames ∧
          ∀ i < frames, bs.getD (64 * i) 0 ≠ 0) ∧
      (encoding ≠ .steim2 →
        bs.length = encoding.samplebytes * n) := by
  have hFixed : ∀ {w : Nat} {xs : List Nat}, 0 < w →
      packFixed host (swap3 host) w xs maxdatabytes =
        some (n, bs) →
      n ≤ 105 * maxdatabytes ∧ bs.length = w * n := by
    intro w xs hWidth hPack
    have hSize := packFixed_length hWidth hPack
    exact ⟨by omega, hSize.2⟩
  unfold msrPackData at hPack
  split at hPack
  case h_1 =>
    have hSize := hFixed (by decide) hPack
    exact ⟨hSize.1, nofun, fun _ => hSize.2⟩
  case h_2 =>
    have hSize := hFixed (by decide) hPack
    exact ⟨hSize.1, nofun, fun _ => hSize.2⟩
  case h_3 =>
    have hSize := hFixed (by decide) hPack
    exact ⟨hSize.1, nofun, fun _ => hSize.2⟩
  case h_4 xs =>
    split at hPack
    case isTrue => cases hPack
    case isFalse hRoom =>
      have hInput : xs ≠ [] := List.ne_nil_of_length_pos hSome
      have hOrder : wordOrder host (!swap3 host) = .big := by
        cases host <;> rfl
      have hFrames := Nat.div_le_self maxdatabytes frameBytes
      refine ⟨?_, fun _ => ?_, fun h => absurd rfl h⟩
      · rcases msrEncodeSteim2_spec hInput (not_lt.mp hRoom)
            hPack with
          ⟨ws, wss, dss, dsss, -, hRun⟩
        have hMost := hRun.count_le
        omega
      · exact frames_of_encode hOrder hInput (not_lt.mp hRoom)
          hPack
  case h_5 => cases hPack

------------------------------------------------------------
-- The Loop Over The Records
------------------------------------------------------------

/- A record to be: its time, its samples and their bytes. -/
structure Chunk where
  time : NsParts
  count : Nat
  payload : List UInt8

/-
  The chunks that cover the samples from the first number to
  the second: each starts where the last one has ended.
-/
inductive PacksChunks
    (host : ByteOrder)
    (maxdatabytes : Nat)
    (msr : Ms3Record) :
    Nat → Nat → List Chunk → Prop
| done (total : Nat) : PacksChunks host maxdatabytes msr total total []
| next
    {total total' : Nat}
    {c : Chunk}
    {cs : List Chunk}
    (hTime : msNstime2time (msr.sampleTime total) = some c.time)
    (hPack :
      msrPackData host msr.encoding (msr.samples.drop total)
        maxdatabytes =
      some (c.count, c.payload))
    (hInside : total < msr.samples.length)
    (hRest :
      PacksChunks host maxdatabytes msr (total + c.count) total'
        cs) :
    PacksChunks host maxdatabytes msr total total' (c :: cs)

/- Each of the chunks is one that was packed. -/
theorem PacksChunks.mem
    {host : ByteOrder}
    {maxdatabytes : Nat}
    {msr : Ms3Record}
    {total total' : Nat}
    {cs : List Chunk}
    (hChunks : PacksChunks host maxdatabytes msr total total' cs)
    {c : Chunk}
    (hMem : c ∈ cs) :
    ∃ k < msr.samples.length,
      msNstime2time (msr.sampleTime k) = some c.time ∧
        msrPackData host msr.encoding (msr.samples.drop k)
            maxdatabytes =
          some (c.count, c.payload) := by
  induction hChunks with
  | done total => cases hMem
  | @next total total' d cs hTime hPack hInside hRest ih =>
      rcases List.mem_cons.mp hMem with rfl | hMem
      · exact ⟨total, hInside, hTime, hPack⟩
      · exact ih hMem

/- The bytes of a chunk's record. -/
def Chunk.record
    (host : ByteOrder)
    (h : Ms3Header)
    (c : Chunk) :
    List UInt8 :=
  dataRecord host { h with time := c.time } c.count c.payload

/-
  What the handler gets are the records of such chunks, also
  when the loop ends in an error.  All samples are packed
  when they are flushed, else no more are left than a record
  takes at most.
-/
theorem packLoop_spec
    {host : ByteOrder}
    {flush : Bool}
    {maxdatabytes maxsamples : Nat}
    {msr : Ms3Record}
    (hFits : msr.samples.Fits)
    {fuel : Nat}
    {h : Ms3Header}
    {total : Nat}
    (records : List (List UInt8))
    (hInside : total < msr.samples.length)
    (hFuel : msr.samples.length ≤ total + fuel)
    (hTime :
      msNstime2time (msr.sampleTime total) = some h.time)
    {r : PackResult}
    (hRun :
      packLoop host flush maxdatabytes maxsamples msr fuel h total
          records =
        r) :
    r.packedsamples ≤ msr.samples.length ∧
      (∃ cs,
        PacksChunks host maxdatabytes msr total r.packedsamples
            cs ∧
          r.records = records ++ cs.map (Chunk.record host h)) ∧
      (r.code = r.records.length ∧
          msr.samples.length - r.packedsamples ≤
            (if flush then 0 else maxsamples) ∨
        r.code = -1 ∧ r.packedsamples < msr.samples.length ∧
          (msrPackData host msr.encoding
                (msr.samples.drop r.packedsamples) maxdatabytes =
              none ∨
            msNstime2time (msr.sampleTime r.packedsamples) =
              none)) := by
  induction fuel generalizing h total records with
  | zero => omega
  | succ fuel ih =>
      have hLeft : 0 < (msr.samples.drop total).length := by
        rw [MsSamples.length_drop]
        omega
      rw [packLoop] at hRun
      split at hRun
      case isFalse hStop =>
        subst hRun
        have hKept := not_or.mp hStop
        refine ⟨hInside.le, ⟨[], .done total,
          (List.append_nil records).symm⟩, Or.inl ⟨rfl, ?_⟩⟩
        rw [if_neg hKept.2]
        exact not_lt.mp hKept.1
      split at hRun
      case h_1 hNone =>
        subst hRun
        exact ⟨hInside.le, ⟨[], .done total,
          (List.append_nil records).symm⟩,
          Or.inr ⟨rfl, hInside, Or.inl hNone⟩⟩
      case h_2 n encoded hPack =>
        have hSpec := msrPackData_spec hLeft (hFits.drop total)
          hPack
        rw [MsSamples.length_drop] at hSpec
        have hHere :
            dataRecord host h n encoded =
              Chunk.record host h ⟨h.time, n, encoded⟩ :=
          rfl
        rw [hHere] at hRun
        dsimp only at hRun
        have hNext : ∀ {total' : Nat} {cs : List Chunk},
            PacksChunks host maxdatabytes msr (total + n) total'
              cs →
            PacksChunks host maxdatabytes msr total total'
              (⟨h.time, n, encoded⟩ :: cs) :=
          fun hRest => .next hTime hPack hInside hRest
        have hOne : ∃ cs,
            PacksChunks host maxdatabytes msr total (total + n)
                cs ∧
              records ++
                  [Chunk.record host h ⟨h.time, n, encoded⟩] =
                records ++ cs.map (Chunk.record host h) :=
          ⟨_, hNext (.done _), rfl⟩
        split at hRun
        case isTrue hLast =>
          subst hRun
          refine ⟨by dsimp only; omega, hOne,
            Or.inl ⟨rfl, ?_⟩⟩
          dsimp only
          omega
        case isFalse hMore =>
          cases hDate : msNstime2time (msr.sampleTime (total + n)) with
          | none =>
              rw [hDate] at hRun
              subst hRun
              exact ⟨(not_le.mp hMore).le, hOne,
                Or.inr ⟨rfl, not_le.mp hMore, Or.inr hDate⟩⟩
          | some time =>
              rw [hDate] at hRun
              rcases ih _ (not_le.mp hMore) (by omega) hDate hRun
                with ⟨hMost, ⟨cs, hChunks, hRecords⟩, hCode⟩
              refine ⟨hMost, ⟨⟨h.time, n, encoded⟩ :: cs,
                hNext hChunks, ?_⟩, hCode⟩
              rw [hRecords, List.append_assoc]
              rfl

/- The header has the fields of the record. -/
structure HeaderOf
    (period : Nat → Nat)
    (msr : Ms3Record)
    (h : Ms3Header) :
    Prop where
  flags : h.flags = msr.flags
  encoding : h.encoding = msr.encoding.code
  samplerate : h.samplerate = samplerateField period msr.samprate
  pubversion : h.pubversion = msr.pubversion
  sid : h.sid = msr.sid
  extra : h.extra = msr.extra
  crc : h.crc = 0

theorem msr3PackHeader3_spec
    {period : Nat → Nat}
    {rawrec : List UInt8}
    {msr : Ms3Record}
    {h : Ms3Header}
    (hPack : msr3PackHeader3 period rawrec msr = some h) :
    HeaderOf period msr h ∧
      msNstime2time msr.starttime = some h.time ∧
      h.dataoffset ≤ msr.reclen ∧ msr.reclen ≤ maxreclen := by
  unfold msr3PackHeader3 at hPack
  split at hPack
  case isTrue => cases hPack
  case isFalse hRange =>
    split at hPack
    case isTrue => cases hPack
    case isFalse hRoom =>
      split at hPack
      case h_1 => cases hPack
      case h_2 time hTime =>
        split at hPack
        case isTrue => cases hPack
        case isFalse =>
          obtain rfl := Option.some.inj hPack
          exact ⟨⟨rfl, rfl, rfl, rfl, rfl, rfl, rfl⟩, hTime,
            not_lt.mp hRoom, not_lt.mp (not_or.mp hRange).2⟩

theorem HeaderOf.dataoffset
    {period : Nat → Nat}
    {msr : Ms3Record}
    {h : Ms3Header}
    (hHeader : HeaderOf period msr h) :
    h.dataoffset =
      ms3fsdhLength + msr.sid.length + msr.extra.length := by
  rw [← hHeader.sid, ← hHeader.extra]
  rfl

/-
  A record whose numbers fit the types that they have in
  memory, and whose identifier fits its array.
-/
structure Ms3Record.Storable
    (period : Nat → Nat)
    (msr : Ms3Record) :
    Prop where
  sidLength : msr.sid.length < lmSidlen
  flags : msr.flags < 256
  start : -2 ^ 63 ≤ msr.starttime ∧ msr.starttime < 2 ^ 63
  samplerate : samplerateField period msr.samprate < 2 ^ 64
  pubversion : msr.pubversion < 256
  extraLength : msr.extra.length < 2 ^ 16
  samples : msr.samples.Fits

/- The first sample is taken when the record starts. -/
theorem Ms3Record.Storable.sampleTime_zero
    {period : Nat → Nat}
    {msr : Ms3Record}
    (hStorable : msr.Storable period) :
    msr.sampleTime 0 = msr.starttime := by
  have hSame :=
    wrap64_of_mem hStorable.start.1 hStorable.start.2
  simpa [Ms3Record.sampleTime, msSampletime] using hSame

theorem Ms3Record.sampleTime_range
    (msr : Ms3Record)
    (total : Nat) :
    -2 ^ 63 ≤ msr.sampleTime total ∧
      msr.sampleTime total < 2 ^ 63 :=
  wrap64_range _

/- Without a header nothing is packed, else it is the loop. -/
theorem msr3PackMseed3_spec
    {host : ByteOrder}
    {period : Nat → Nat}
    {rawrec : List UInt8}
    {flush : Bool}
    {msr : Ms3Record}
    (hStorable : msr.Storable period)
    (hSome : 0 < msr.samples.length)
    {r : PackResult}
    (hRun : msr3PackMseed3 host period rawrec flush msr = r) :
    msr3PackHeader3 period rawrec msr = none ∧ r = ⟨[], 0, -1⟩ ∨
      ∃ h maxdatabytes,
        msr3PackHeader3 period rawrec msr = some h ∧
          maxdatabytes = (msr.reclen - h.dataoffset).toNat ∧
          r.packedsamples ≤ msr.samples.length ∧
          (∃ cs,
            PacksChunks host maxdatabytes msr 0 r.packedsamples
                cs ∧
              r.records = cs.map (Chunk.record host h)) ∧
          (r.code = r.records.length ∧
              (flush = true →
                r.packedsamples = msr.samples.length) ∨
            r.code = -1 ∧ r.packedsamples < msr.samples.length ∧
              (msrPackData host msr.encoding
                    (msr.samples.drop r.packedsamples)
                    maxdatabytes =
                  none ∨
                msNstime2time (msr.sampleTime r.packedsamples) =
                  none)) := by
  unfold msr3PackMseed3 at hRun
  split at hRun
  case h_1 hNone => exact Or.inl ⟨hNone, hRun.symm⟩
  case h_2 h hHeader =>
    right
    rw [if_neg hSome.ne'] at hRun
    dsimp only at hRun
    have hTime : msNstime2time (msr.sampleTime 0) = some h.time :=
      hStorable.sampleTime_zero ▸ (msr3PackHeader3_spec hHeader).2.1
    rcases packLoop_spec hStorable.samples [] hSome (by omega) hTime hRun with
      ⟨hMost, hChunks, hCode⟩
    refine ⟨h, _, hHeader, rfl, hMost, hChunks, ?_⟩
    rcases hCode with ⟨hCode, hLeft⟩ | hCode
    · refine Or.inl ⟨hCode, fun hFlush => ?_⟩
      rw [if_pos hFlush] at hLeft
      omega
    · exact Or.inr hCode

end TankConvertor
