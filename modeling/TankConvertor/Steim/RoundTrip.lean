import TankConvertor.Steim.Decoder

/-
  Encoding and decoding: the samples packed come back, on
  hosts of either byte order, and the encoder only stops
  short of the end when the frames are full.

  Key theorems include:
    * `decode_encode_steim2`
    * `wide_of_encode_none`
    * `encode_steim2_progress`
-/

------------------------------------------------------------
-- What The Encoder Writes
------------------------------------------------------------

namespace TankConvertor

open BitFields

/- The frames for `n` packed samples. -/
def steimFrames
    (host : ByteOrder)
    (swapflag : Bool)
    (input : List Int)
    (n : Nat)
    (ws : List SteimWord)
    (wss : List (List SteimWord)) :
    List (List (List UInt8)) :=
  frameOf host swapflag
      [storeWord host swapflag (lowBits 32 (input.getD 0 0)),
        storeWord host swapflag
          (lowBits 32 (input.getD (n - 1) 0))]
      ws ::
    wss.map (frameOf host swapflag [])

/-
  A successful run: the words of the frames and the
  differences in them.
-/
structure SteimRun
    (host : ByteOrder)
    (swapflag : Bool)
    (input : List Int)
    (diff0 : Int)
    (outputlength n : Nat)
    (ws : List SteimWord)
    (wss : List (List SteimWord))
    (dss : List (List Int))
    (dsss : List (List (List Int))) :
    Prop where
  first : List.Forall₂ (CarriesDiffs host swapflag) ws dss
  others :
    List.Forall₂ (List.Forall₂ (CarriesDiffs host swapflag)) wss dsss
  taken :
    (differences input diff0).take n =
      (dss :: dsss).flatten.flatten
  count : n = ((dss :: dsss).flatten.flatten).length
  inside : n ≤ input.length
  firstSome : ws ≠ []
  othersSome : ∀ ws ∈ wss, ws ≠ []
  firstRoom : ws.length ≤ 13
  othersRoom : ∀ ws ∈ wss, ws.length ≤ 15
  frames : wss.length + 1 ≤ outputlength / frameBytes
  full : n < input.length →
    ws.length = 13 ∧ (∀ ws ∈ wss, ws.length = 15) ∧
      wss.length + 1 = outputlength / frameBytes

theorem msrEncodeSteim2_spec
    {host : ByteOrder}
    {swapflag : Bool}
    {input : List Int}
    {outputlength : Nat}
    {diff0 : Int}
    {n : Nat}
    {bs : List UInt8}
    (hInput : input ≠ [])
    (hRoom : frameBytes ≤ outputlength)
    (hEncode :
      msrEncodeSteim2 host swapflag input outputlength diff0 =
        some (n, bs)) :
    ∃ ws wss dss dsss,
      bs =
        (steimFrames host swapflag input n ws wss).flatten.flatten ∧
      SteimRun host swapflag input diff0 outputlength n
        ws wss dss dsss := by
  have hLen := List.length_pos_of_ne_nil hInput
  have hBytes : 0 < outputlength :=
    (by decide : 0 < frameBytes).trans_le hRoom
  have hFrames : 0 < outputlength / frameBytes :=
    Nat.div_pos hRoom (by decide)
  obtain ⟨maxframes, hMax⟩ : ∃ k, outputlength / frameBytes = k + 1 :=
    ⟨outputlength / frameBytes - 1, by omega⟩
  unfold msrEncodeSteim2 at hEncode
  rw [if_neg hLen.ne', if_neg hBytes.ne', hMax] at hEncode
  dsimp only at hEncode
  split at hEncode
  case h_1 => cases hEncode
  case h_2 ws s hFirst =>
    split at hEncode
    case h_1 => cases hEncode
    case h_2 wss s' hOthers =>
      obtain ⟨rfl, rfl⟩ := Prod.mk.inj (Option.some.inj hEncode)
      rcases packWords_spec (buffered_start hInput diff0) hFirst with
        ⟨dss, hCarries, hHere, hFew, hFull⟩
      rcases packFrames_spec hHere.buffered hOthers with
        ⟨dsss, hAll, hThere, hEach, hCount, hRest⟩
      have hRun := hHere.trans hThere
      have hTaken := hRun.taken
      have hTotal := hRun.count
      have hBuffered := hRun.buffered
      refine ⟨ws, wss, dss, dsss, rfl, hCarries, hAll, ?_, ?_, ?_,
        packWords_ne_nil hLen hFirst, packFrames_ne_nil hOthers,
        hFew, hEach, by omega, ?_⟩
      · simpa using hTaken
      · simpa using hTotal
      · have hSum := hBuffered.count
        have hInside := hBuffered.inside
        omega
      · intro hLeft
        have hBefore : s.outputsamples < input.length := by
          have hMore := hThere.count
          omega
        exact ⟨hFull hBefore, (hRest hLeft).2,
          by rw [(hRest hLeft).1, hMax]⟩

------------------------------------------------------------
-- Round Trip
------------------------------------------------------------

section Run

variable {host : ByteOrder} {swapflag : Bool} {input : List Int}
variable {diff0 : Int} {outputlength n : Nat}
variable {ws : List SteimWord} {wss : List (List SteimWord)}
variable {dss : List (List Int)} {dsss : List (List (List Int))}

theorem SteimRun.length_frame
    (hRun : SteimRun host swapflag input diff0 outputlength n
      ws wss dss dsss) :
    ∀ f ∈ steimFrames host swapflag input n ws wss,
      f.length = frameWords := by
  intro f hf
  rcases List.mem_cons.mp hf with rfl | hf
  · have hFirst := hRun.firstRoom
    exact length_frameOf (by simp [frameWords]; omega)
  · rcases List.mem_map.mp hf with ⟨vs, hvs, rfl⟩
    have hOther := hRun.othersRoom vs hvs
    exact length_frameOf (by simp [frameWords]; omega)

theorem length_bytes_of_carriesDiffs
    {vs : List SteimWord}
    {ess : List (List Int)}
    (hCarries : List.Forall₂ (CarriesDiffs host swapflag) vs ess) :
    ∀ w ∈ vs, w.bytes.length = 4 := by
  intro w hw
  rcases List.getElem_of_mem hw with ⟨i, hi, rfl⟩
  exact (hCarries.get hi (hCarries.length_eq ▸ hi)).length_bytes

theorem SteimRun.length_word
    (hRun : SteimRun host swapflag input diff0 outputlength n
      ws wss dss dsss) :
    ∀ f ∈ steimFrames host swapflag input n ws wss,
      ∀ w ∈ f, w.length = 4 := by
  intro f hf w hw
  rcases List.mem_cons.mp hf with rfl | hf
  · exact length_of_mem_frameOf (by simp)
      (length_bytes_of_carriesDiffs hRun.first) hw
  · rcases List.mem_map.mp hf with ⟨vs, hvs, rfl⟩
    rcases List.getElem_of_mem hvs with ⟨i, hi, rfl⟩
    exact length_of_mem_frameOf (by simp)
      (length_bytes_of_carriesDiffs
        (hRun.others.get hi (hRun.others.length_eq ▸ hi)))
      hw

theorem SteimRun.length_bytes
    (hRun : SteimRun host swapflag input diff0 outputlength n
      ws wss dss dsss) :
    (steimFrames host swapflag input n ws wss).flatten.flatten.length =
      frameBytes * (wss.length + 1) := by
  have hEach :
      ∀ w ∈ (steimFrames host swapflag input n ws wss).flatten,
        w.length = 4 := by
    intro w hw
    rcases List.mem_flatten.mp hw with ⟨f, hf, hMem⟩
    exact hRun.length_word f hf w hMem
  rw [Blocks.length_flatten hEach,
    Blocks.length_flatten hRun.length_frame]
  simp only [steimFrames, List.length_cons, List.length_map,
    frameWords, frameBytes]
  omega

/- Every frame decodes to its differences. -/
theorem SteimRun.decodeWords
    {host' : ByteOrder}
    {swapflag' : Bool}
    (hOrder : wordOrder host swapflag = wordOrder host' swapflag')
    (hRun : SteimRun host swapflag input diff0 outputlength n
      ws wss dss dsss)
    (x0 : Int)
    {i : Nat}
    (hi : i < (dss :: dsss).length)
    (s : DecodeState) :
    TankConvertor.decodeWords host' swapflag'
        (frameAt
          (steimFrames host swapflag input n ws wss).flatten.flatten
          i)
        x0 (frameWords - (if i = 0 then 3 else 1)) s =
      some (applyDiffs x0 ((dss :: dsss)[i]).flatten s) := by
  have hCount := hRun.others.length_eq
  have hFrame :
      i < (steimFrames host swapflag input n ws wss).length := by
    simp only [steimFrames, List.length_cons, List.length_map] at hi ⊢
    omega
  have hWords := fun widx (hWord : widx < frameWords) =>
    frameAt_flatten hRun.length_frame hRun.length_word hFrame hWord
  cases i with
  | zero =>
      have hRoom := hRun.firstRoom
      exact decodeWords_frameOf hOrder hRun.first
        (by simp [frameWords]; omega) hWords x0 s
  | succ i =>
      have hHere : i < wss.length := by
        simp only [List.length_cons] at hi
        omega
      have hRoom := hRun.othersRoom wss[i] (List.getElem_mem hHere)
      have hOne := hRun.others.get hHere (hCount ▸ hHere)
      simp only [steimFrames, List.getElem_cons_succ,
        List.getElem_map] at hWords
      exact decodeWords_frameOf hOrder hOne
        (by simp [frameWords]; omega) hWords x0 s

theorem length_le_flatten_of_carries
    {vs : List SteimWord}
    {ess : List (List Int)}
    (hCarries : List.Forall₂ (CarriesDiffs host swapflag) vs ess) :
    vs.length ≤ ess.flatten.length ∧
      ess.flatten.length ≤ 7 * vs.length := by
  induction hCarries with
  | nil => simp
  | cons hFirst hRest ih =>
      have hLen := hFirst.length_pos
      rw [List.flatten_cons, List.length_append, List.length_cons]
      omega

theorem narrow_of_carries
    {vs : List SteimWord}
    {ess : List (List Int)}
    (hCarries : List.Forall₂ (CarriesDiffs host swapflag) vs ess) :
    ∀ d ∈ ess.flatten, bitwidth d ≤ 30 := by
  induction hCarries with
  | nil => simp
  | cons hFirst hRest ih =>
      intro d hd
      rcases List.mem_append.mp hd with hd | hd
      · exact hFirst.narrow d hd
      · exact ih d hd

theorem length_le_flatten_of_frames
    {vss : List (List SteimWord)}
    {esss : List (List (List Int))}
    (hCarries :
      List.Forall₂ (List.Forall₂ (CarriesDiffs host swapflag))
        vss esss) :
    (vss.map List.length).sum ≤ esss.flatten.flatten.length ∧
      esss.flatten.flatten.length ≤
        7 * (vss.map List.length).sum := by
  induction hCarries with
  | nil => simp
  | cons hFirst hRest ih =>
      have hLen := length_le_flatten_of_carries hFirst
      rw [List.flatten_cons, List.flatten_append,
        List.length_append, List.map_cons, List.sum_cons]
      omega

theorem narrow_of_frames
    {vss : List (List SteimWord)}
    {esss : List (List (List Int))}
    (hCarries :
      List.Forall₂ (List.Forall₂ (CarriesDiffs host swapflag))
        vss esss) :
    ∀ d ∈ esss.flatten.flatten, bitwidth d ≤ 30 := by
  induction hCarries with
  | nil => simp
  | cons hFirst hRest ih =>
      intro d hd
      rw [List.flatten_cons, List.flatten_append] at hd
      rcases List.mem_append.mp hd with hd | hd
      · exact narrow_of_carries hFirst d hd
      · exact ih d hd

/- Between one and seven differences for each word. -/
theorem SteimRun.words
    (hRun : SteimRun host swapflag input diff0 outputlength n
      ws wss dss dsss) :
    ws.length + (wss.map List.length).sum ≤ n ∧
      n ≤ 7 * (ws.length + (wss.map List.length).sum) := by
  have hCount := hRun.count
  have hFirst := length_le_flatten_of_carries hRun.first
  have hOthers := length_le_flatten_of_frames hRun.others
  rw [List.flatten_cons, List.flatten_append,
    List.length_append] at hCount
  omega

theorem SteimRun.sum_le
    (hRun : SteimRun host swapflag input diff0 outputlength n
      ws wss dss dsss) :
    (wss.map List.length).sum ≤ 15 * wss.length := by
  have hEach := hRun.othersRoom
  have hSum := List.sum_le_card_nsmul (wss.map List.length) 15
    (by simpa using hEach)
  rwa [List.length_map, smul_eq_mul, Nat.mul_comm] at hSum

/- No wide difference is packed. -/
theorem SteimRun.narrow
    (hRun : SteimRun host swapflag input diff0 outputlength n
      ws wss dss dsss) :
    ∀ d ∈ (differences input diff0).take n, bitwidth d ≤ 30 := by
  rw [hRun.taken]
  exact narrow_of_frames (.cons hRun.first hRun.others)

theorem SteimRun.pos
    (hRun : SteimRun host swapflag input diff0 outputlength n
      ws wss dss dsss)
    (hInput : input ≠ []) :
    0 < n := by
  rcases Nat.eq_zero_or_pos n with hZero | hPos
  · have hLen := List.length_pos_of_ne_nil hInput
    have hFull := (hRun.full (by omega)).1
    have hWords := hRun.words
    omega
  · exact hPos

/- The bytes are in the frames there is room for. -/
theorem SteimRun.length_le
    (hRun : SteimRun host swapflag input diff0 outputlength n
      ws wss dss dsss) :
    (steimFrames host swapflag input n ws
        wss).flatten.flatten.length ≤
      outputlength := by
  rw [hRun.length_bytes]
  exact (Nat.mul_le_mul_left _ hRun.frames).trans
    (Nat.mul_div_le outputlength frameBytes)

/- The frames decode to the samples that were packed. -/
theorem SteimRun.decode
    {host' : ByteOrder}
    {swapflag' : Bool}
    (hOrder : wordOrder host swapflag = wordOrder host' swapflag')
    (hInput : input ≠ [])
    (hSamples : ∀ x ∈ input, -2 ^ 31 ≤ x ∧ x < 2 ^ 31)
    (hRun : SteimRun host swapflag input diff0 outputlength n
      ws wss dss dsss)
    {decodelength : Nat}
    (hDecode : 0 < decodelength) :
    msrDecodeSteim2 host' swapflag'
        (steimFrames host swapflag input n ws wss).flatten.flatten
        n decodelength =
      some ⟨input.take n, true⟩ := by
  have hInside := hRun.inside
  have hSome := hRun.pos hInput
  have hBytes := hRun.length_bytes
  have hCount := hRun.others.length_eq
  have hDiv :
      frameBytes * (wss.length + 1) / frameBytes = wss.length + 1 :=
    Nat.mul_div_cancel_left _ (by decide)
  -- The two samples in the first frame.
  have hAt := fun widx (hWord : widx < frameWords) =>
    frameAt_flatten hRun.length_frame hRun.length_word
      (Nat.succ_pos _) hWord
  have hSample : ∀ i, i < input.length →
      wrap32
          (loadWord host' swapflag'
            (storeWord host swapflag
              (lowBits 32 (input.getD i 0)))) =
        input.getD i 0 := by
    intro i hi
    have hMem := hSamples _ (List.getElem_mem hi)
    rw [loadWord_storeWord hOrder (lowBits_lt 32 _),
      List.getD_eq_getElem _ _ hi]
    exact wrap32_lowBits hMem.1 hMem.2
  have hX0 := hSample 0 (by omega)
  have hXn := hSample (n - 1) (by omega)
  rw [Option.some.inj (hAt 1 (by decide))] at hX0
  rw [Option.some.inj (hAt 2 (by decide))] at hXn
  have hRead := decodeFrames_run
    (input.getD 0 0)
    (congrArg (· + 1) hCount.symm)
    (fun i hi s => by
      rw [Nat.zero_add]
      exact hRun.decodeWords hOrder (input.getD 0 0) hi s)
    ⟨[], n⟩
  have hWhole := applyDiffs_differences hSamples diff0 n 0
    (by omega)
  rw [List.drop_zero, hRun.taken, List.take_zero,
    Nat.zero_add] at hWhole
  rw [hWhole] at hRead
  have hLast :
      (input.take n).getLastD 0 = input.getD (n - 1) 0 := by
    have hTake := getLastD_take (by omega : n - 1 < input.length)
    rwa [Nat.sub_add_cancel hSome] at hTake
  unfold msrDecodeSteim2
  rw [if_neg (by rw [hBytes]; simp [frameBytes]),
    if_neg (by rw [hBytes, hDiv]; omega), if_neg hSome.ne',
    if_neg hSome.ne', hX0, hXn, hBytes, hDiv]
  simp only [hRead, hLast]
  simp

/- No word has more than seven differences. -/
theorem SteimRun.count_le
    (hRun : SteimRun host swapflag input diff0 outputlength n
      ws wss dss dsss) :
    n + 14 ≤ 105 * (outputlength / frameBytes) := by
  have hWords := hRun.words
  have hMost := hRun.sum_le
  have hFew := hRun.firstRoom
  have hFrames := hRun.frames
  omega

end Run

/-
  The decoder gives back the samples that were packed, and
  finds the last one as announced.
-/
theorem decode_encode_steim2
    {host host' : ByteOrder}
    {swapflag swapflag' : Bool}
    (hOrder : wordOrder host swapflag = wordOrder host' swapflag')
    {input : List Int}
    (hInput : input ≠ [])
    (hSamples : ∀ x ∈ input, -2 ^ 31 ≤ x ∧ x < 2 ^ 31)
    {outputlength : Nat}
    (hRoom : frameBytes ≤ outputlength)
    {diff0 : Int}
    {n : Nat}
    {bs : List UInt8}
    (hEncode :
      msrEncodeSteim2 host swapflag input outputlength diff0 =
        some (n, bs))
    {decodelength : Nat}
    (hDecode : 0 < decodelength) :
    0 < n ∧ n ≤ input.length ∧ bs.length ≤ outputlength ∧
      msrDecodeSteim2 host' swapflag' bs n decodelength =
        some ⟨input.take n, true⟩ := by
  rcases msrEncodeSteim2_spec hInput hRoom hEncode with
    ⟨ws, wss, dss, dsss, rfl, hRun⟩
  exact ⟨hRun.pos hInput, hRun.inside, hRun.length_le,
    hRun.decode hOrder hInput hSamples hDecode⟩

/- Written on one host, read on the other. -/
theorem decode_encode_steim2_hosts :
    ∃ bs,
      msrEncodeSteim2 .little true [5, 6, 8] 64 0 = some (3, bs) ∧
        msrDecodeSteim2 .big false bs 3 12 =
          some ⟨[5, 6, 8], true⟩ := by
  have hOrder : wordOrder .little true = wordOrder .big false := rfl
  have hSamples : ∀ x ∈ [5, 6, 8], -2 ^ 31 ≤ x ∧ x < (2 ^ 31 : Int) := by
    decide
  have hEncode :
      ∃ bs, msrEncodeSteim2 .little true [5, 6, 8] 64 0 =
        some (3, bs) :=
    ⟨_, rfl⟩
  rcases hEncode with ⟨bs, hBytes⟩
  have hBack := decode_encode_steim2 hOrder (by decide) hSamples
    le_rfl hBytes (by decide : 0 < 12)
  exact ⟨bs, hBytes, hBack.2.2.2⟩

------------------------------------------------------------
-- Where Frames Begin
------------------------------------------------------------

theorem frameOf_first
    {host : ByteOrder}
    {swapflag : Bool}
    (hOrder : wordOrder host swapflag = .big)
    {front : List (List UInt8)}
    (hFront : front.length ≤ 2)
    {ws : List SteimWord}
    {dss : List (List Int)}
    (hCarries : List.Forall₂ (CarriesDiffs host swapflag) ws dss)
    (hSome : ws ≠ [])
    (hRoom : front.length + 1 + ws.length ≤ frameWords) :
    ∃ (b : UInt8) (rest : List UInt8), b ≠ 0 ∧
      (frameOf host swapflag front ws)[0]? = some (b :: rest) := by
  have hLen := hCarries.length_eq
  have hNibbles : ∀ w ∈ ws, 0 < w.nibble ∧ w.nibble < 4 := by
    intro w hw
    rcases List.getElem_of_mem hw with ⟨i, hi, rfl⟩
    have hWord := hCarries.get hi (hLen ▸ hi)
    exact ⟨hWord.nibble_pos, hWord.nibble_lt⟩
  have hLow := le_nibbleBits (front.length + 1) hSome
    (fun w hw => (hNibbles w hw).1)
  have hHigh := nibbleBits_lt (fun w hw => (hNibbles w hw).2)
    hRoom
  have hFloor : 2 ^ 24 ≤ nibbleBits (front.length + 1) ws :=
    (Nat.pow_le_pow_right (by decide) (by omega)).trans hLow
  have hTop : nibbleBits (front.length + 1) ws < 2 ^ 32 :=
    hHigh.trans_le (Nat.pow_le_pow_right (by decide) (by omega))
  unfold frameOf
  generalize nibbleBits (front.length + 1) ws = v at hFloor hTop
  have hByte : UInt8.ofNat (v / 256 / 256 / 256 % 256) ≠ 0 := by
    intro hZero
    have hNumber := congrArg UInt8.toNat hZero
    simp only [UInt8.toNat_ofNat', UInt8.toNat_zero] at hNumber
    omega
  rw [List.getElem?_cons_zero, storeWord_eq, hOrder]
  exact ⟨_, _, hByte, rfl⟩

/- Where a frame begins, the first byte is not zero. -/
theorem SteimRun.first_byte
    {host : ByteOrder}
    {swapflag : Bool}
    (hOrder : wordOrder host swapflag = .big)
    {input : List Int}
    {diff0 : Int}
    {outputlength n : Nat}
    {ws : List SteimWord}
    {wss : List (List SteimWord)}
    {dss : List (List Int)}
    {dsss : List (List (List Int))}
    (hRun : SteimRun host swapflag input diff0 outputlength n
      ws wss dss dsss)
    {i : Nat}
    (hi : i < wss.length + 1) :
    (steimFrames host swapflag input n ws wss).flatten.flatten.getD
        (frameBytes * i) 0 ≠
      0 := by
  have hFrame :
      i < (steimFrames host swapflag input n ws wss).length := by
    simpa [steimFrames] using hi
  have hWord := frameAt_flatten hRun.length_frame
    hRun.length_word hFrame (by decide : 0 < frameWords)
  have hFirst : ∃ (b : UInt8) (rest : List UInt8), b ≠ 0 ∧
      (steimFrames host swapflag input n ws wss)[i][0]? =
        some (b :: rest) := by
    cases i with
    | zero =>
        have hRoom := hRun.firstRoom
        exact frameOf_first hOrder (by simp) hRun.first
          hRun.firstSome (by simp [frameWords]; omega)
    | succ i =>
        have hHere : i < wss.length := by omega
        have hMem := List.getElem_mem hHere
        have hRoom := hRun.othersRoom wss[i] hMem
        have hOne := hRun.others.get hHere
          (hRun.others.length_eq ▸ hHere)
        simp only [steimFrames, List.getElem_cons_succ,
          List.getElem_map]
        exact frameOf_first hOrder (by simp) hOne
          (hRun.othersSome _ hMem) (by simp [frameWords]; omega)
  rcases hFirst with ⟨b, rest, hNonzero, hAt⟩
  rw [hAt] at hWord
  have hBytes := congrArg List.head? (Option.some.inj hWord)
  unfold frameAt at hBytes
  rw [List.head?_take, if_neg (by decide), List.head?_drop,
    List.head?_cons] at hBytes
  rw [List.getD_eq_getElem?_getD, ← Nat.add_zero (frameBytes * i),
    ← hBytes]
  exact hNonzero

theorem frames_of_encode
    {host : ByteOrder}
    {swapflag : Bool}
    (hOrder : wordOrder host swapflag = .big)
    {input : List Int}
    (hInput : input ≠ [])
    {outputlength : Nat}
    (hRoom : frameBytes ≤ outputlength)
    {diff0 : Int}
    {n : Nat}
    {bs : List UInt8}
    (hEncode :
      msrEncodeSteim2 host swapflag input outputlength diff0 =
        some (n, bs)) :
    ∃ frames, 0 < frames ∧ bs.length = frameBytes * frames ∧
      ∀ i < frames, bs.getD (frameBytes * i) 0 ≠ 0 := by
  rcases msrEncodeSteim2_spec hInput hRoom hEncode with
    ⟨ws, wss, dss, dsss, rfl, hRun⟩
  exact ⟨wss.length + 1, Nat.succ_pos _, hRun.length_bytes,
    fun i hi => hRun.first_byte hOrder hi⟩

------------------------------------------------------------
-- How Far The Encoder Gets
------------------------------------------------------------

/- The buffer holds differences of the samples. -/
theorem Buffered.mem_differences
    {input : List Int}
    {diff0 : Int}
    {s : SteimState}
    (hBuffered : Buffered input diff0 s)
    {d : Int}
    (hMem : d ∈ s.diffs) :
    d ∈ differences input diff0 := by
  have hTake :
      d ∈ (differences input diff0).take (s.inputidx + 1) := by
    rw [hBuffered.split]
    exact List.mem_append_right _ hMem
  exact List.mem_of_mem_take hTake

section Narrow

variable (host : ByteOrder) (swapflag : Bool)
variable {input : List Int} {diff0 : Int}

theorem packWords_isSome
    (hNarrow : ∀ d ∈ differences input diff0, bitwidth d ≤ 30)
    (room : Nat)
    {s : SteimState}
    (hBuffered : Buffered input diff0 s) :
    ∃ ws s',
      packWords host swapflag input room s = some (ws, s') := by
  induction room generalizing s with
  | zero => exact ⟨[], s, rfl⟩
  | succ room ih =>
      unfold packWords
      split
      case isFalse => exact ⟨[], s, rfl⟩
      case isTrue hLeft =>
        have hRefill := buffered_refill hBuffered
        cases hWord :
            packWord host swapflag (refill input s) with
        | none =>
            rcases packWord_eq_none
                (refill_ne_nil hBuffered hLeft) hWord with
              ⟨d, hMem, hWide⟩
            exact absurd (hNarrow d (hRefill.mem_differences hMem))
              hWide
        | some next =>
            obtain ⟨w, s₁⟩ := next
            rcases packWord_spec hRefill hWord with ⟨ds, -, hHere⟩
            rcases ih hHere.buffered with ⟨ws, s₂, hWords⟩
            exact ⟨w :: ws, s₂, by simp only [hWords]⟩

theorem packFrames_isSome
    (hNarrow : ∀ d ∈ differences input diff0, bitwidth d ≤ 30)
    (room : Nat)
    {s : SteimState}
    (hBuffered : Buffered input diff0 s) :
    ∃ wss s',
      packFrames host swapflag input room s = some (wss, s') := by
  induction room generalizing s with
  | zero => exact ⟨[], s, rfl⟩
  | succ room ih =>
      unfold packFrames
      split
      case isFalse => exact ⟨[], s, rfl⟩
      case isTrue hLeft =>
        rcases packWords_isSome host swapflag hNarrow 15
            hBuffered with
          ⟨ws, s₁, hWords⟩
        rcases packWords_spec hBuffered hWords with
          ⟨dss, -, hHere, -⟩
        rcases ih hHere.buffered with ⟨wss, s₂, hFrames⟩
        exact ⟨ws :: wss, s₂, by simp only [hWords, hFrames]⟩

end Narrow

/- The encoder fails only for a difference too wide. -/
theorem wide_of_encode_none
    {host : ByteOrder}
    {swapflag : Bool}
    {input : List Int}
    (hInput : input ≠ [])
    {outputlength : Nat}
    (hRoom : frameBytes ≤ outputlength)
    {diff0 : Int}
    (hNone :
      msrEncodeSteim2 host swapflag input outputlength diff0 =
        none) :
    ∃ d ∈ differences input diff0, 30 < bitwidth d := by
  by_contra hNever
  push Not at hNever
  have hNarrow : ∀ d ∈ differences input diff0, bitwidth d ≤ 30 :=
    hNever
  have hLen := List.length_pos_of_ne_nil hInput
  have hBytes : 0 < outputlength :=
    (by decide : 0 < frameBytes).trans_le hRoom
  have hFrames : 0 < outputlength / frameBytes :=
    Nat.div_pos hRoom (by decide)
  obtain ⟨maxframes, hMax⟩ :
      ∃ k, outputlength / frameBytes = k + 1 :=
    ⟨outputlength / frameBytes - 1, by omega⟩
  have hStart := buffered_start hInput diff0
  rcases packWords_isSome host swapflag hNarrow 13 hStart with
    ⟨ws, s, hWords⟩
  rcases packWords_spec hStart hWords with ⟨dss, -, hHere, -⟩
  rcases packFrames_isSome host swapflag hNarrow maxframes
      hHere.buffered with
    ⟨wss, s', hOthers⟩
  unfold msrEncodeSteim2 at hNone
  rw [if_neg hLen.ne', if_neg hBytes.ne', hMax] at hNone
  simp [hWords, hOthers] at hNone

/-
  Only a difference of more than 30 bits makes the encoder
  fail, and none is among those it packs.  Seven differences
  are the most for a word, one is the least, and before the
  end it stops only when every word is used: the 13 behind
  the two samples of the first frame, 15 of every other.
-/
theorem encode_steim2_progress
    (host : ByteOrder)
    (swapflag : Bool)
    {input : List Int}
    (hInput : input ≠ [])
    {outputlength : Nat}
    (hRoom : frameBytes ≤ outputlength)
    (diff0 : Int) :
    match
      msrEncodeSteim2 host swapflag input outputlength diff0
    with
    | none => ∃ d ∈ differences input diff0, 30 < bitwidth d
    | some (n, bs) =>
        (∀ d ∈ (differences input diff0).take n, bitwidth d ≤ 30) ∧
          n + 14 ≤ 105 * (outputlength / frameBytes) ∧
          (n < input.length →
            15 * (outputlength / frameBytes) ≤ n + 2 ∧
              bs.length =
                frameBytes * (outputlength / frameBytes) ∧
              ∃ ws wss dss dsss,
                SteimRun host swapflag input diff0 outputlength
                    n ws wss dss dsss ∧
                  bs =
                    (steimFrames host swapflag input n ws
                      wss).flatten.flatten ∧
                  ws.length = 13 ∧
                  (∀ vs ∈ wss, vs.length = 15) ∧
                  wss.length + 1 =
                    outputlength / frameBytes) := by
  cases hResult :
      msrEncodeSteim2 host swapflag input outputlength diff0 with
  | none => exact wide_of_encode_none hInput hRoom hResult
  | some result =>
      obtain ⟨n, bs⟩ := result
      rcases msrEncodeSteim2_spec hInput hRoom hResult with
        ⟨ws, wss, dss, dsss, rfl, hRun⟩
      have hWords := hRun.words
      refine ⟨hRun.narrow, hRun.count_le, fun hLeft => ?_⟩
      rcases hRun.full hLeft with ⟨hFirst, hEach, hAll⟩
      have hSum : (wss.map List.length).sum = 15 * wss.length := by
        rw [List.map_congr_left hEach, List.map_const',
          List.sum_replicate, smul_eq_mul, Nat.mul_comm]
      refine ⟨by omega, by rw [hRun.length_bytes, hAll], ?_⟩
      exact ⟨ws, wss, dss, dsss, hRun, rfl, hFirst, hEach, hAll⟩

/- A jump of 31 bits stops the encoder. -/
theorem encode_steim2_progress_jump :
    msrEncodeSteim2 .little true [0, 1073741824] 64 0 = none ∧
      ∃ d ∈ differences [0, 1073741824] 0, 30 < bitwidth d := by
  have hNone :
      msrEncodeSteim2 .little true [0, 1073741824] 64 0 = none :=
    rfl
  have hWide := encode_steim2_progress .little true
    (by decide : [(0 : Int), 1073741824] ≠ [])
    (by decide : frameBytes ≤ 64) 0
  rw [hNone] at hWide
  exact ⟨hNone, hWide⟩

end TankConvertor
