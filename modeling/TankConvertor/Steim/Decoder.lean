import TankConvertor.Steim.Encoder
import TankConvertor.Library.Blocks

/-
  Runs of the decoder, from what the words of the frames
  decode to one by one.

  Key theorems include:
    * `applyDiffs_differences`
    * `extract_nibbleBits`
    * `decodeWords_frameOf`
    * `decodeFrames_run`
-/

------------------------------------------------------------
-- Applying Differences
------------------------------------------------------------

namespace TankConvertor

open BitFields

/- Nothing more is asked for. -/
theorem applyDiffs_done
    (x0 : Int)
    (ds : List Int)
    {s : DecodeState}
    (hDone : ¬ 0 < s.samplecount) :
    applyDiffs x0 ds s = s := by
  cases ds with
  | nil => rfl
  | cons d ds => rw [applyDiffs, if_neg hDone]

theorem applyDiffs_append
    (x0 : Int)
    (ds es : List Int)
    (s : DecodeState) :
    applyDiffs x0 (ds ++ es) s =
      applyDiffs x0 es (applyDiffs x0 ds s) := by
  induction ds generalizing s with
  | nil => rfl
  | cons d ds ih =>
      by_cases hMore : 0 < s.samplecount
      · rw [List.cons_append, applyDiffs, applyDiffs,
          if_pos hMore, if_pos hMore]
        exact ih _
      · rw [applyDiffs_done x0 _ hMore, applyDiffs_done x0 _ hMore,
          applyDiffs_done x0 _ hMore]

/- A sample from the one before it. -/
theorem wrap32_add_wrap32_sub
    {x y : Int}
    (hLow : -2 ^ 31 ≤ y)
    (hHigh : y < 2 ^ 31) :
    wrap32 (x + wrap32 (y - x)) = y := by
  unfold wrap32
  omega

theorem getLastD_take
    {input : List Int}
    {m : Nat}
    (hLt : m < input.length) :
    (input.take (m + 1)).getLastD 0 = input.getD m 0 := by
  rw [← List.take_append_getElem hLt, List.getLastD_concat,
    List.getD_eq_getElem _ _ hLt]

/- The differences give the samples back. -/
theorem applyDiffs_differences
    {input : List Int}
    (hSamples : ∀ x ∈ input, -2 ^ 31 ≤ x ∧ x < 2 ^ 31)
    (diff0 : Int)
    (n m : Nat)
    (hLen : m + n ≤ input.length) :
    applyDiffs (input.getD 0 0)
        (((differences input diff0).drop m).take n)
        ⟨input.take m, n⟩ =
      ⟨input.take (m + n), 0⟩ := by
  induction n generalizing m with
  | zero => rfl
  | succ n ih =>
      have hInput : input ≠ [] :=
        List.ne_nil_of_length_pos (by omega)
      have hSome : m < (differences input diff0).length := by
        rw [length_differences hInput]
        omega
      have hRest := ih (m + 1) (by omega)
      rw [Nat.add_right_comm, Nat.add_assoc m n 1] at hRest
      rw [List.drop_eq_getElem_cons hSome, List.take_succ_cons,
        applyDiffs, if_pos (Nat.succ_pos n)]
      rw [Nat.succ_sub_one, ← hRest]
      have hNext :
          (if input.take m = [] then input.getD 0 0
            else
              wrap32
                ((input.take m).getLastD 0 +
                  (differences input diff0)[m])) =
            input[m] := by
        cases m with
        | zero =>
            exact (if_pos rfl).trans
              (List.getD_eq_getElem input 0 (by omega))
        | succ m =>
            have hHere : input.take (m + 1) ≠ [] := by
              simpa using hInput
            have hMem := hSamples _
              (List.getElem_mem (by omega : m + 1 < input.length))
            have hDiff := differences_succ diff0
              (by omega : m + 1 < input.length)
            rw [List.getElem?_eq_getElem hSome] at hDiff
            rw [if_neg hHere, Option.some.inj hDiff, diffAt,
              getLastD_take (by omega),
              List.getD_eq_getElem input 0 (by omega : m + 1 < _)]
            exact wrap32_add_wrap32_sub hMem.1 hMem.2
      rw [hNext, List.take_append_getElem]

------------------------------------------------------------
-- Nibbles
------------------------------------------------------------

theorem nibbleBits_lt
    {widx : Nat}
    {ws : List SteimWord}
    (hNibbles : ∀ w ∈ ws, w.nibble < 4)
    (hRoom : widx + ws.length ≤ frameWords) :
    nibbleBits widx ws < 2 ^ (32 - 2 * widx) := by
  induction ws generalizing widx with
  | nil => exact Nat.two_pow_pos _
  | cons w ws ih =>
      have hLen : widx + (ws.length + 1) ≤ 16 := hRoom
      have hShift : widx + 1 + ws.length ≤ frameWords := by
        rw [Nat.add_right_comm]
        exact hRoom
      have hRest := ih
        (fun v hv => hNibbles v (List.mem_cons_of_mem w hv))
        hShift
      have hHere : w.nibble < 2 ^ 2 :=
        hNibbles w List.mem_cons_self
      have hSplit : 32 - 2 * widx = 2 + (30 - 2 * widx) := by
        omega
      have hNext : 32 - 2 * (widx + 1) = 30 - 2 * widx := by
        omega
      rw [hNext] at hRest
      have hTop :
          w.nibble <<< (30 - 2 * widx) <
            2 ^ (2 + (30 - 2 * widx)) := by
        rw [Nat.shiftLeft_eq, pow_add]
        exact Nat.mul_lt_mul_of_pos_right hHere
          (Nat.two_pow_pos _)
      rw [nibbleBits, hSplit]
      exact Nat.or_lt_two_pow hTop
        (hRest.trans (Nat.pow_lt_pow_right (by decide) (by omega)))

/- The bits of the first word are among the highest. -/
theorem le_nibbleBits
    (widx : Nat)
    {ws : List SteimWord}
    (hSome : ws ≠ [])
    (hNibbles : ∀ w ∈ ws, 0 < w.nibble) :
    2 ^ (30 - 2 * widx) ≤ nibbleBits widx ws := by
  rcases List.exists_cons_of_ne_nil hSome with ⟨w, ws, rfl⟩
  have hHere := hNibbles w List.mem_cons_self
  calc 2 ^ (30 - 2 * widx)
      ≤ w.nibble * 2 ^ (30 - 2 * widx) :=
        Nat.le_mul_of_pos_left _ hHere
    _ = w.nibble <<< (30 - 2 * widx) :=
        (Nat.shiftLeft_eq _ _).symm
    _ ≤ nibbleBits widx (w :: ws) := Nat.left_le_or

/- The two bits of a word, zero where there is none. -/
theorem extract_nibbleBits
    {widx : Nat}
    {ws : List SteimWord}
    (hNibbles : ∀ w ∈ ws, w.nibble < 4)
    (hRoom : widx + ws.length ≤ frameWords)
    {i : Nat}
    (hInside : widx + i < frameWords) :
    extract (nibbleBits widx ws) (30 - 2 * (widx + i)) 2 =
      (ws.map SteimWord.nibble).getD i 0 := by
  induction ws generalizing widx i with
  | nil => simp [nibbleBits]
  | cons w ws ih =>
      have hTail : ∀ v ∈ ws, v.nibble < 4 :=
        fun v hv => hNibbles v (List.mem_cons_of_mem w hv)
      have hRest : widx + 1 + ws.length ≤ frameWords := by
        rw [Nat.add_right_comm]
        exact hRoom
      have hLt : widx + i < 16 := hInside
      rw [nibbleBits, extract_or]
      cases i with
      | zero =>
          have hBelow := nibbleBits_lt hTail hRest
          have hNext :
              32 - 2 * (widx + 1) = 30 - 2 * widx := by
            omega
          rw [hNext] at hBelow
          rw [Nat.add_zero, extract_of_lt hBelow, Nat.or_zero]
          exact extract_shiftLeft_self
            (hNibbles w List.mem_cons_self) _
      | succ i =>
          have hAbove :
              30 - 2 * (widx + (i + 1)) + 2 ≤ 30 - 2 * widx := by
            omega
          rw [extract_shiftLeft_of_le _ hAbove, Nat.zero_or,
            show widx + (i + 1) = widx + 1 + i by omega]
          exact ih hTail hRest (by rw [Nat.add_right_comm]; exact hInside)

------------------------------------------------------------
-- Words Of A Frame
------------------------------------------------------------

/- The run, from what the words decode to. -/
theorem decodeWords_run
    {host : ByteOrder}
    {swapflag : Bool}
    {frame : Nat → List UInt8}
    (x0 : Int)
    {room : Nat}
    {dss : List (List Int)}
    (hLen : dss.length ≤ room)
    (hWords : ∀ i, i < room →
      decodeWord host swapflag
          (extract (loadWord host swapflag (frame 0))
            (30 - 2 * (frameWords - room + i)) 2)
          (frame (frameWords - room + i)) =
        some (dss.getD i []))
    (hRoom : room ≤ frameWords)
    (s : DecodeState) :
    decodeWords host swapflag frame x0 room s =
      some (applyDiffs x0 dss.flatten s) := by
  induction room generalizing dss s with
  | zero =>
      obtain rfl : dss = [] := List.length_eq_zero_iff.mp (by omega)
      rfl
  | succ room ih =>
      by_cases hMore : 0 < s.samplecount
      · have hFirst := hWords 0 (Nat.succ_pos room)
        have hRest : ∀ i, i < room →
            decodeWord host swapflag
                (extract (loadWord host swapflag (frame 0))
                  (30 - 2 * (frameWords - room + i)) 2)
                (frame (frameWords - room + i)) =
              some (dss.tail.getD i []) := by
          intro i hi
          have hNext := hWords (i + 1) (Nat.succ_lt_succ hi)
          have hIndex :
              frameWords - (room + 1) + (i + 1) =
                frameWords - room + i := by
            omega
          rw [hIndex] at hNext
          rw [hNext]
          cases dss <;> simp
        have hTail : dss.tail.length ≤ room := by
          rw [List.length_tail]
          omega
        rw [Nat.add_zero] at hFirst
        simp only [decodeWords, if_pos hMore, hFirst,
          ih hTail hRest (by omega)]
        rw [← applyDiffs_append]
        cases dss <;> simp
      · rw [decodeWords, if_neg hMore, applyDiffs_done x0 _ hMore]

theorem length_frameOf
    {host : ByteOrder}
    {swapflag : Bool}
    {front : List (List UInt8)}
    {ws : List SteimWord}
    (hRoom : front.length + 1 + ws.length ≤ frameWords) :
    (frameOf host swapflag front ws).length = frameWords := by
  simp only [frameOf, List.length_cons, List.length_append,
    List.length_map, List.length_replicate]
  omega

theorem length_of_mem_frameOf
    {host : ByteOrder}
    {swapflag : Bool}
    {front : List (List UInt8)}
    (hFront : ∀ bs ∈ front, bs.length = 4)
    {ws : List SteimWord}
    (hWords : ∀ w ∈ ws, w.bytes.length = 4)
    {bs : List UInt8}
    (hMem : bs ∈ frameOf host swapflag front ws) :
    bs.length = 4 := by
  unfold frameOf at hMem
  rcases List.mem_cons.mp hMem with rfl | hMem
  · exact length_storeWord host swapflag _
  rcases List.mem_append.mp hMem with hMem | hMem
  · exact hFront bs hMem
  rcases List.mem_append.mp hMem with hMem | hMem
  · rcases List.mem_map.mp hMem with ⟨w, hw, rfl⟩
    exact hWords w hw
  · rw [(List.mem_replicate.mp hMem).2]
    rfl

/- A frame decodes to the differences its words carry. -/
theorem decodeWords_frameOf
    {host host' : ByteOrder}
    {swapflag swapflag' : Bool}
    (hOrder : wordOrder host swapflag = wordOrder host' swapflag')
    {front : List (List UInt8)}
    {ws : List SteimWord}
    {dss : List (List Int)}
    (hCarries : List.Forall₂ (CarriesDiffs host swapflag) ws dss)
    (hRoom : front.length + 1 + ws.length ≤ frameWords)
    {frame : Nat → List UInt8}
    (hFrame : ∀ i, i < frameWords →
      (frameOf host swapflag front ws)[i]? = some (frame i))
    (x0 : Int)
    (s : DecodeState) :
    decodeWords host' swapflag' frame x0
        (frameWords - (front.length + 1)) s =
      some (applyDiffs x0 dss.flatten s) := by
  have hLen := hCarries.length_eq
  have hNibbles : ∀ w ∈ ws, w.nibble < 4 := by
    intro w hw
    rcases List.getElem_of_mem hw with ⟨i, hi, rfl⟩
    exact (hCarries.get hi (hLen ▸ hi)).nibble_lt
  have hBits :
      loadWord host' swapflag' (frame 0) =
        nibbleBits (front.length + 1) ws := by
    have hZero := hFrame 0 (by decide)
    rw [← Option.some.inj hZero]
    have hLt := nibbleBits_lt hNibbles hRoom
    exact loadWord_storeWord hOrder
      (hLt.trans_le (Nat.pow_le_pow_right (by decide) (by omega)))
  refine decodeWords_run x0 (by omega) (fun i hi => ?_)
    (Nat.sub_le _ _) s
  have hIndex :
      frameWords - (frameWords - (front.length + 1)) + i =
        front.length + 1 + i := by
    omega
  have hInside : front.length + 1 + i < frameWords := by omega
  have hWord := hFrame _ hInside
  rw [hIndex, hBits, extract_nibbleBits hNibbles hRoom hInside]
  have hBehind :
      (frameOf host swapflag front ws)[front.length + 1 + i]? =
        (ws.map SteimWord.bytes ++
          List.replicate (frameWords - 1 - front.length - ws.length)
            [0, 0, 0, 0])[i]? := by
    rw [frameOf, Nat.add_right_comm, List.getElem?_cons_succ,
      List.getElem?_append_right (Nat.le_add_right _ _),
      Nat.add_sub_cancel_left]
  rw [hBehind] at hWord
  by_cases hHere : i < ws.length
  · rw [List.getElem?_append_left (by simpa using hHere)] at hWord
    rcases hCarries.get hHere (hLen ▸ hHere) with
      ⟨k, hEq, hCount, hNarrow⟩
    have hRead := decodeWord_bytes hOrder hCount hNarrow
    have hGet : ws[i] = ⟨k.nibble, k.bytes host swapflag _⟩ := hEq
    rw [List.getElem?_map, List.getElem?_eq_getElem hHere,
      hGet] at hWord
    have hNibble :
        (ws.map SteimWord.nibble).getD i 0 = k.nibble := by
      rw [List.getD_eq_getElem _ _ (by simpa using hHere),
        List.getElem_map, hGet]
    rw [hNibble, ← Option.some.inj hWord,
      List.getD_eq_getElem _ _ (hLen ▸ hHere)]
    exact hRead
  · have hNone : dss.length ≤ i := hLen ▸ Nat.le_of_not_lt hHere
    have hNibble :
        (ws.map SteimWord.nibble).getD i 0 = 0 := by
      rw [List.getD_eq_default]
      simpa using Nat.le_of_not_lt hHere
    rw [hNibble, List.getD_eq_default _ _ hNone]
    rfl

------------------------------------------------------------
-- Frames
------------------------------------------------------------

/- A word of a frame, found in the bytes. -/
theorem frameAt_flatten
    {frames : List (List (List UInt8))}
    (hFrames : ∀ f ∈ frames, f.length = frameWords)
    (hWords : ∀ f ∈ frames, ∀ w ∈ f, w.length = 4)
    {frameidx widx : Nat}
    (hFrame : frameidx < frames.length)
    (hWord : widx < frameWords) :
    frames[frameidx][widx]? =
      some (frameAt frames.flatten.flatten frameidx widx) := by
  have hEach : ∀ w ∈ frames.flatten, w.length = 4 := by
    intro w hw
    rcases List.mem_flatten.mp hw with ⟨f, hf, hMem⟩
    exact hWords f hf w hMem
  have hLen := Blocks.length_flatten hFrames
  have hFound := Blocks.getElem_flatten hFrames hFrame hWord
  have hInside :
      frameWords * frameidx + widx < frames.flatten.length := by
    have hWhole : frameWords * (frameidx + 1) ≤
        frameWords * frames.length :=
      Nat.mul_le_mul_left _ hFrame
    rw [hLen]
    rw [Nat.mul_add] at hWhole
    omega
  have hCut := Blocks.take_drop_flatten hEach hInside
  have hOffset :
      4 * (frameWords * frameidx + widx) =
        frameBytes * frameidx + 4 * widx := by
    simp only [frameWords, frameBytes]
    omega
  rw [hOffset] at hCut
  rw [← hFound, List.getElem?_eq_getElem hInside, frameAt, hCut]

/- The run, from what the frames decode to. -/
theorem decodeFrames_run
    {host : ByteOrder}
    {swapflag : Bool}
    {input : List UInt8}
    (x0 : Int)
    {room frameidx : Nat}
    {dsss : List (List (List Int))}
    (hLen : dsss.length = room)
    (hFrames : ∀ i (hi : i < dsss.length) (s : DecodeState),
      decodeWords host swapflag (frameAt input (frameidx + i)) x0
          (frameWords - (if frameidx + i = 0 then 3 else 1)) s =
        some (applyDiffs x0 (dsss[i]).flatten s))
    (s : DecodeState) :
    decodeFrames host swapflag input x0 room frameidx s =
      some (applyDiffs x0 dsss.flatten.flatten s) := by
  induction dsss generalizing room frameidx s with
  | nil =>
      subst hLen
      rfl
  | cons dss dsss ih =>
      obtain rfl : dsss.length + 1 = room := hLen
      by_cases hMore : 0 < s.samplecount
      · have hFirst := hFrames 0 (Nat.succ_pos _) s
        have hRest :
            ∀ i (hi : i < dsss.length) (s : DecodeState),
              decodeWords host swapflag
                  (frameAt input (frameidx + 1 + i)) x0
                  (frameWords -
                    (if frameidx + 1 + i = 0 then 3 else 1)) s =
                some (applyDiffs x0 (dsss[i]).flatten s) := by
          intro i hi s
          have hNext := hFrames (i + 1) (Nat.succ_lt_succ hi) s
          rw [← Nat.add_assoc, Nat.add_right_comm] at hNext
          exact hNext
        simp only [Nat.add_zero] at hFirst
        simp only [decodeFrames, if_pos hMore, hFirst, ih rfl hRest]
        rw [← applyDiffs_append, List.flatten_cons,
          List.flatten_append]
        rfl
      · rw [decodeFrames, if_neg hMore, applyDiffs_done x0 _ hMore]

end TankConvertor
