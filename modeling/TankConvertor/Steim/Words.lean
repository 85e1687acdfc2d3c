import TankConvertor.Steim.Model

/-
  One word of a frame: what the encoder lays out in it is
  what the decoder reads.

  Key theorems include:
    * `loadWord_storeWord`
    * `bitwidth_le_width_iff`
    * `decodeWord_bytes`
    * `choosePacking_takes`
-/

------------------------------------------------------------
-- Words In Two Orders
------------------------------------------------------------

namespace TankConvertor

open BitFields

theorem storeWord_eq
    (host : ByteOrder)
    (swapflag : Bool)
    (v : Nat) :
    storeWord host swapflag v =
      (wordOrder host swapflag).bytes 4 v := by
  unfold storeWord wordOrder
  cases swapflag
  · rfl
  · simp

theorem loadWord_eq
    (host : ByteOrder)
    (swapflag : Bool)
    (bs : List UInt8) :
    loadWord host swapflag bs =
      (wordOrder host swapflag).value bs := by
  unfold loadWord wordOrder
  cases swapflag
  · rfl
  · simp [ByteOrder.value_reverse]

@[simp] theorem length_storeWord
    (host : ByteOrder)
    (swapflag : Bool)
    (v : Nat) :
    (storeWord host swapflag v).length = 4 := by
  rw [storeWord_eq, ByteOrder.length_bytes]

/- Only the order of the words has to be agreed on. -/
theorem loadWord_storeWord
    {host host' : ByteOrder}
    {swapflag swapflag' : Bool}
    (hOrder : wordOrder host swapflag = wordOrder host' swapflag')
    {v : Nat}
    (hFits : v < 2 ^ 32) :
    loadWord host' swapflag' (storeWord host swapflag v) = v := by
  rw [loadWord_eq, storeWord_eq, hOrder]
  exact ByteOrder.value_bytes _ hFits

/- A sample kept in a word. -/
theorem wrap32_lowBits
    {x : Int}
    (hLow : -2 ^ 31 ≤ x)
    (hHigh : x < 2 ^ 31) :
    wrap32 (lowBits 32 x) = x := by
  unfold wrap32 lowBits
  omega

------------------------------------------------------------
-- Layouts
------------------------------------------------------------

/- The width is that of the two's complement field. -/
theorem bitwidth_le_width_iff
    (k : Packing)
    (v : Int) :
    bitwidth v ≤ k.width ↔
      -2 ^ (k.width - 1) ≤ v ∧ v < 2 ^ (k.width - 1) := by
  unfold bitwidth
  cases k <;> dsimp only [Packing.width] <;> grind

theorem Packing.count_pos
    (k : Packing) :
    0 < k.count := by
  cases k <;> decide

theorem Packing.count_le
    (k : Packing) :
    k.count ≤ 7 := by
  cases k <;> decide

theorem Packing.nibble_pos
    (k : Packing) :
    0 < k.nibble := by
  cases k <;> decide

theorem Packing.nibble_lt
    (k : Packing) :
    k.nibble < 4 := by
  cases k <;> decide

theorem Packing.length_bytes
    (host : ByteOrder)
    (swapflag : Bool)
    (k : Packing)
    {ds : List Int}
    (hLen : ds.length = k.count) :
    (k.bytes host swapflag ds).length = 4 := by
  cases k with
  | p4x8 => exact (List.length_map _).trans hLen
  | _ => simp [Packing.bytes]

/- The word in which the differences stand as fields. -/
def Packing.word (k : Packing) (ds : List Int) : Nat :=
  k.dnib <<< 30 ||| pack k.width (ds.map (lowBits k.width))

theorem pack_lowBits_lt
    {k : Packing}
    {ds : List Int}
    (hLen : ds.length = k.count)
    (hFields : k.width * k.count ≤ 30) :
    pack k.width (ds.map (lowBits k.width)) < 2 ^ 30 := by
  have hBelow :
      ∀ f ∈ ds.map (lowBits k.width), f < 2 ^ k.width := by
    intro f hf
    rcases List.mem_map.mp hf with ⟨d, -, rfl⟩
    exact lowBits_lt k.width d
  have hLt := pack_lt hBelow
  rw [List.length_map, hLen] at hLt
  exact hLt.trans_le (Nat.pow_le_pow_right (by decide) hFields)

theorem Packing.word_lt
    {k : Packing}
    {ds : List Int}
    (hLen : ds.length = k.count)
    (hFields : k.width * k.count ≤ 30) :
    k.word ds < 2 ^ 32 := by
  have hLow := pack_lowBits_lt hLen hFields
  have hDnib : k.dnib < 4 := by cases k <;> decide
  unfold Packing.word
  rw [shiftLeft_or hLow]
  omega

theorem Packing.extract_word
    {k : Packing}
    {ds : List Int}
    (hLen : ds.length = k.count)
    (hFields : k.width * k.count ≤ 30) :
    extract (k.word ds) 30 2 = k.dnib := by
  unfold Packing.word
  rw [extract_top (pack_lowBits_lt hLen hFields)]
  cases k <;> rfl

theorem Packing.signedFields_word
    {k : Packing}
    {ds : List Int}
    (hLen : ds.length = k.count)
    (hFields : k.width * k.count ≤ 30)
    (hNarrow : ∀ d ∈ ds, bitwidth d ≤ k.width) :
    signedFields k.width k.count (k.word ds) = ds := by
  have hPos : 0 < k.width := by cases k <;> decide
  have hFits :
      ∀ d ∈ ds, -2 ^ (k.width - 1) ≤ d ∧ d < 2 ^ (k.width - 1) :=
    fun d hd => (bitwidth_le_width_iff k d).mp (hNarrow d hd)
  have hTop :
      k.dnib <<< 30 =
        (k.dnib <<< (30 - k.width * ds.length)) <<<
          (k.width * ds.length) := by
    rw [← Nat.shiftLeft_add, hLen, Nat.sub_add_cancel hFields]
  unfold signedFields Packing.word
  rw [hTop, ← hLen, unpack_pack_signed hPos hFits]

/- The decoder reads the word that was laid out. -/
theorem decodeWord_bytes
    {host host' : ByteOrder}
    {swapflag swapflag' : Bool}
    (hOrder : wordOrder host swapflag = wordOrder host' swapflag')
    {k : Packing}
    {ds : List Int}
    (hLen : ds.length = k.count)
    (hNarrow : ∀ d ∈ ds, bitwidth d ≤ k.width) :
    decodeWord host' swapflag' k.nibble
        (k.bytes host swapflag ds) =
      some ds := by
  by_cases hFields : k.width * k.count ≤ 30
  · have hLoad := loadWord_storeWord hOrder
      (Packing.word_lt hLen hFields)
    have hDnib := Packing.extract_word hLen hFields
    have hBack := Packing.signedFields_word hLen hFields hNarrow
    unfold Packing.word at hLoad hDnib hBack
    cases k with
    | p4x8 => exact absurd hFields (by decide)
    | _ =>
        simp only [decodeWord, Packing.nibble, Packing.bytes,
          hLoad, hDnib]
        exact congrArg some hBack
  · -- Four bytes, each one a difference by itself.
    obtain rfl : k = .p4x8 := by
      cases k <;> first | rfl | exact absurd (by decide) hFields
    have hEach :
        ∀ d ∈ ds,
          signExtend 8 (UInt8.ofNat (lowBits 8 d)).toNat = id d := by
      intro d hd
      have hIn := (bitwidth_le_width_iff .p4x8 d).mp (hNarrow d hd)
      have hByte := Nat.mod_eq_of_lt (lowBits_lt 8 d)
      rw [UInt8.toNat_ofNat', hByte]
      exact signExtend_lowBits (by decide) hIn.1 hIn.2
    simp only [decodeWord, Packing.nibble, Packing.bytes,
      List.map_map]
    exact congrArg some
      ((List.map_congr_left hEach).trans (List.map_id ds))

------------------------------------------------------------
-- The Choice
------------------------------------------------------------

theorem choosePacking_takes
    {diffs : List Int}
    {k : Packing}
    (hChoice : choosePacking diffs = some k) :
    k.Takes diffs := by
  unfold choosePacking at hChoice
  have hFound := List.find?_some hChoice
  exact of_decide_eq_true hFound

theorem Packing.width_le
    (k : Packing) :
    k.width ≤ 30 := by
  cases k <;> decide

/- Only the first difference can be too wide. -/
theorem choosePacking_isSome_iff
    (d : Int)
    (ds : List Int) :
    (choosePacking (d :: ds)).isSome ↔ bitwidth d ≤ 30 := by
  constructor
  · intro hSome
    rcases Option.isSome_iff_exists.mp hSome with ⟨k, hk⟩
    have hTakes := choosePacking_takes hk
    have hFirst : d ∈ (d :: ds).take k.count := by
      obtain ⟨n, hn⟩ := Nat.exists_eq_add_of_lt k.count_pos
      rw [hn, Nat.zero_add]
      exact List.mem_cons_self
    exact (hTakes.2 d hFirst).trans k.width_le
  · intro hNarrow
    have hLast : Packing.p1x30.Takes (d :: ds) := by
      refine ⟨Nat.succ_le_succ (Nat.zero_le _), fun e he => ?_⟩
      obtain rfl : e = d := by simpa [Packing.count] using he
      exact hNarrow
    unfold choosePacking
    rw [List.find?_isSome]
    exact ⟨.p1x30, by simp, decide_eq_true hLast⟩

end TankConvertor
