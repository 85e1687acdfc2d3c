import TankConvertor.Steim.Words
import Mathlib.Data.List.Forall2
import Mathlib.Data.List.GetD

/-
  Runs of the encoder: the differences go to the words one
  after another, none is left out or packed twice.

  Key definitions include:
    * `differences`
    * `Buffered`, the invariant of the difference buffer
    * `CarriesDiffs`

  Key theorems include:
    * `packWord_spec`
    * `packWords_spec`
    * `packFrames_spec`
-/

------------------------------------------------------------
-- Differences
------------------------------------------------------------

namespace TankConvertor

open BitFields

/- The difference in front of sample `i + 1`. -/
def diffAt (input : List Int) (i : Nat) : Int :=
  wrap32 (input.getD (i + 1) 0 - input.getD i 0)

/- All differences, the given one in front. -/
def differences (input : List Int) (diff0 : Int) : List Int :=
  diff0 :: (List.range (input.length - 1)).map (diffAt input)

theorem length_differences
    {input : List Int}
    (hInput : input ≠ [])
    (diff0 : Int) :
    (differences input diff0).length = input.length := by
  have hPos := List.length_pos_of_ne_nil hInput
  simp only [differences, List.length_cons, List.length_map,
    List.length_range]
  omega

theorem differences_succ
    {input : List Int}
    (diff0 : Int)
    {i : Nat}
    (hLt : i + 1 < input.length) :
    (differences input diff0)[i + 1]? = some (diffAt input i) := by
  have hRange : i < input.length - 1 := by omega
  simp [differences, hRange]

------------------------------------------------------------
-- The Buffer
------------------------------------------------------------

/-
  The buffer has the differences between those packed and
  those computed, and never more than it has room for.
-/
structure Buffered
    (input : List Int)
    (diff0 : Int)
    (s : SteimState) :
    Prop where
  split :
    (differences input diff0).take (s.inputidx + 1) =
      (differences input diff0).take s.outputsamples ++ s.diffs
  count : s.outputsamples + s.diffs.length = s.inputidx + 1
  inside : s.inputidx + 1 ≤ input.length
  room : s.diffs.length ≤ 7

theorem buffered_start
    {input : List Int}
    (hInput : input ≠ [])
    (diff0 : Int) :
    Buffered input diff0 ⟨[diff0], 0, 0⟩ where
  split := by simp [differences]
  count := rfl
  inside := List.length_pos_of_ne_nil hInput
  room := by simp

/- The buffer starts behind what is packed. -/
theorem Buffered.take_add
    {input : List Int}
    {diff0 : Int}
    {s : SteimState}
    (hBuffered : Buffered input diff0 s)
    {n : Nat}
    (hFew : n ≤ s.diffs.length) :
    (differences input diff0).take (s.outputsamples + n) =
      (differences input diff0).take s.outputsamples ++
        s.diffs.take n := by
  have hInside := hBuffered.inside
  have hCount := hBuffered.count
  have hInput : input ≠ [] := List.ne_nil_of_length_pos (by omega)
  have hLen := length_differences hInput diff0
  have hDone :
      ((differences input diff0).take s.outputsamples).length =
        s.outputsamples :=
    List.length_take_of_le (by omega)
  have hAll :
      ((differences input diff0).take s.outputsamples).take
          (s.outputsamples + n) =
        (differences input diff0).take s.outputsamples :=
    List.take_of_length_le (by omega)
  have hCut := congrArg (List.take (s.outputsamples + n))
    hBuffered.split
  rw [List.take_take, Nat.min_eq_left (by omega),
    List.take_append, hDone, Nat.add_sub_cancel_left,
    hAll] at hCut
  exact hCut

theorem addDiffs_outputsamples
    (input : List Int)
    (room : Nat)
    (s : SteimState) :
    (addDiffs input room s).outputsamples = s.outputsamples := by
  induction room generalizing s with
  | zero => rfl
  | succ room ih =>
      unfold addDiffs
      split
      · exact ih _
      · rfl

theorem buffered_addDiffs
    {input : List Int}
    {diff0 : Int}
    {room : Nat}
    {s : SteimState}
    (hRoom : s.diffs.length + room ≤ 7)
    (hBuffered : Buffered input diff0 s) :
    Buffered input diff0 (addDiffs input room s) := by
  induction room generalizing s with
  | zero => exact hBuffered
  | succ room ih =>
      unfold addDiffs
      split
      case isFalse => exact hBuffered
      case isTrue hMore =>
        refine ih (by simp; omega) ⟨?_, ?_, hMore, ?_⟩
        · have hNext := differences_succ diff0 hMore
          rw [List.take_add_one, hBuffered.split, hNext,
            List.append_assoc]
          rfl
        · have hCount := hBuffered.count
          simp
          omega
        · simp
          omega

/- The buffer is empty only when nothing is left. -/
theorem addDiffs_ne_nil
    {input : List Int}
    {diff0 : Int}
    {room : Nat}
    {s : SteimState}
    (hRoom : 0 < room)
    (hBuffered : Buffered input diff0 s)
    (hLeft : s.outputsamples < input.length) :
    (addDiffs input room s).diffs ≠ [] := by
  have hGrows :
      ∀ (room : Nat) (s : SteimState), s.diffs ≠ [] →
        (addDiffs input room s).diffs ≠ [] := by
    intro room
    induction room with
    | zero => exact fun s hs => hs
    | succ room ih =>
        intro s hs
        unfold addDiffs
        split
        · exact ih _ (by simp)
        · exact hs
  obtain ⟨room, rfl⟩ : ∃ r, room = r + 1 := ⟨room - 1, by omega⟩
  unfold addDiffs
  split
  case isTrue => exact hGrows room _ (by simp)
  case isFalse hDone =>
    have hCount := hBuffered.count
    intro hNil
    rw [hNil, List.length_nil] at hCount
    omega

theorem refill_outputsamples
    (input : List Int)
    (s : SteimState) :
    (refill input s).outputsamples = s.outputsamples := by
  unfold refill
  split
  · exact addDiffs_outputsamples input _ s
  · rfl

theorem buffered_refill
    {input : List Int}
    {diff0 : Int}
    {s : SteimState}
    (hBuffered : Buffered input diff0 s) :
    Buffered input diff0 (refill input s) := by
  have hRoom := hBuffered.room
  unfold refill
  split
  · exact buffered_addDiffs (by omega) hBuffered
  · exact hBuffered

theorem refill_ne_nil
    {input : List Int}
    {diff0 : Int}
    {s : SteimState}
    (hBuffered : Buffered input diff0 s)
    (hLeft : s.outputsamples < input.length) :
    (refill input s).diffs ≠ [] := by
  unfold refill
  split
  case isTrue hFew =>
    exact addDiffs_ne_nil (by omega) hBuffered hLeft
  case isFalse hFull =>
    intro hNil
    rw [hNil] at hFull
    exact hFull (by decide)

------------------------------------------------------------
-- Words
------------------------------------------------------------

/- The word has the differences, in one of the layouts. -/
def CarriesDiffs
    (host : ByteOrder)
    (swapflag : Bool)
    (w : SteimWord)
    (ds : List Int) :
    Prop :=
  ∃ k : Packing,
    w = ⟨k.nibble, k.bytes host swapflag ds⟩ ∧
      ds.length = k.count ∧ ∀ d ∈ ds, bitwidth d ≤ k.width

theorem CarriesDiffs.length_bytes
    {host : ByteOrder}
    {swapflag : Bool}
    {w : SteimWord}
    {ds : List Int}
    (hCarries : CarriesDiffs host swapflag w ds) :
    w.bytes.length = 4 := by
  rcases hCarries with ⟨k, rfl, hLen, -⟩
  exact k.length_bytes host swapflag hLen

theorem CarriesDiffs.nibble_lt
    {host : ByteOrder}
    {swapflag : Bool}
    {w : SteimWord}
    {ds : List Int}
    (hCarries : CarriesDiffs host swapflag w ds) :
    w.nibble < 4 := by
  rcases hCarries with ⟨k, rfl, -, -⟩
  exact k.nibble_lt

theorem CarriesDiffs.nibble_pos
    {host : ByteOrder}
    {swapflag : Bool}
    {w : SteimWord}
    {ds : List Int}
    (hCarries : CarriesDiffs host swapflag w ds) :
    0 < w.nibble := by
  rcases hCarries with ⟨k, rfl, -, -⟩
  exact k.nibble_pos

theorem CarriesDiffs.narrow
    {host : ByteOrder}
    {swapflag : Bool}
    {w : SteimWord}
    {ds : List Int}
    (hCarries : CarriesDiffs host swapflag w ds) :
    ∀ d ∈ ds, bitwidth d ≤ 30 := by
  rcases hCarries with ⟨k, -, -, hNarrow⟩
  exact fun d hd => (hNarrow d hd).trans k.width_le

theorem CarriesDiffs.length_pos
    {host : ByteOrder}
    {swapflag : Bool}
    {w : SteimWord}
    {ds : List Int}
    (hCarries : CarriesDiffs host swapflag w ds) :
    0 < ds.length ∧ ds.length ≤ 7 := by
  rcases hCarries with ⟨k, -, hLen, -⟩
  rw [hLen]
  exact ⟨k.count_pos, k.count_le⟩

/- What happens between two states of a run. -/
structure Packs
    (input : List Int)
    (diff0 : Int)
    (s s' : SteimState)
    (ds : List Int) :
    Prop where
  buffered : Buffered input diff0 s'
  taken :
    (differences input diff0).take s'.outputsamples =
      (differences input diff0).take s.outputsamples ++ ds
  count : s'.outputsamples = s.outputsamples + ds.length

theorem Packs.refl
    {input : List Int}
    {diff0 : Int}
    {s : SteimState}
    (hBuffered : Buffered input diff0 s) :
    Packs input diff0 s s [] where
  buffered := hBuffered
  taken := by simp
  count := rfl

theorem Packs.trans
    {input : List Int}
    {diff0 : Int}
    {s s' s'' : SteimState}
    {ds es : List Int}
    (hFirst : Packs input diff0 s s' ds)
    (hThen : Packs input diff0 s' s'' es) :
    Packs input diff0 s s'' (ds ++ es) where
  buffered := hThen.buffered
  taken := by
    rw [hThen.taken, hFirst.taken, List.append_assoc]
  count := by
    rw [hThen.count, hFirst.count, List.length_append,
      Nat.add_assoc]

/- One word. -/
theorem packWord_spec
    {host : ByteOrder}
    {swapflag : Bool}
    {input : List Int}
    {diff0 : Int}
    {s s' : SteimState}
    {w : SteimWord}
    (hBuffered : Buffered input diff0 s)
    (hPack : packWord host swapflag s = some (w, s')) :
    ∃ ds, CarriesDiffs host swapflag w ds ∧
      Packs input diff0 s s' ds := by
  unfold packWord at hPack
  split at hPack
  case h_1 => cases hPack
  case h_2 k hChoice =>
    obtain ⟨rfl, rfl⟩ := Prod.mk.inj (Option.some.inj hPack)
    rcases choosePacking_takes hChoice with ⟨hCount, hNarrow⟩
    have hLen : (s.diffs.take k.count).length = k.count :=
      List.length_take_of_le hCount
    have hTotal := hBuffered.count
    have hSplit := hBuffered.split
    have hRest := List.take_append_drop k.count s.diffs
    have hTaken := hBuffered.take_add hCount
    refine ⟨s.diffs.take k.count, ⟨k, rfl, hLen, hNarrow⟩,
      ⟨⟨?_, ?_, hBuffered.inside, ?_⟩, hTaken, by rw [hLen]⟩⟩
    · rw [hTaken, List.append_assoc, hRest, hSplit]
    · simp only [List.length_drop]
      omega
    · have hRoom := hBuffered.room
      simp only [List.length_drop]
      omega

/- Without a layout the first difference is too wide. -/
theorem packWord_eq_none
    {host : ByteOrder}
    {swapflag : Bool}
    {s : SteimState}
    (hDiffs : s.diffs ≠ [])
    (hPack : packWord host swapflag s = none) :
    ∃ d ∈ s.diffs, ¬ bitwidth d ≤ 30 := by
  obtain ⟨d, ds, hEq⟩ := List.exists_cons_of_ne_nil hDiffs
  refine ⟨d, by rw [hEq]; exact List.mem_cons_self, fun hNarrow => ?_⟩
  have hSome := (choosePacking_isSome_iff d ds).mpr hNarrow
  rcases Option.isSome_iff_exists.mp hSome with ⟨k, hk⟩
  rw [← hEq] at hk
  simp [packWord, hk] at hPack

/- The words of a frame. -/
theorem packWords_spec
    {host : ByteOrder}
    {swapflag : Bool}
    {input : List Int}
    {diff0 : Int}
    {room : Nat}
    {s s' : SteimState}
    {ws : List SteimWord}
    (hBuffered : Buffered input diff0 s)
    (hPack :
      packWords host swapflag input room s = some (ws, s')) :
    ∃ dss, List.Forall₂ (CarriesDiffs host swapflag) ws dss ∧
      Packs input diff0 s s' dss.flatten ∧ ws.length ≤ room ∧
      (s'.outputsamples < input.length → ws.length = room) := by
  induction room generalizing s ws with
  | zero =>
      obtain ⟨rfl, rfl⟩ := Prod.mk.inj (Option.some.inj hPack)
      exact ⟨[], .nil, .refl hBuffered, le_rfl, fun _ => rfl⟩
  | succ room ih =>
      unfold packWords at hPack
      split at hPack
      case isFalse hDone =>
        obtain ⟨rfl, rfl⟩ := Prod.mk.inj (Option.some.inj hPack)
        exact ⟨[], .nil, .refl hBuffered, Nat.zero_le _,
          fun hLeft => absurd hLeft hDone⟩
      case isTrue hLeft =>
        split at hPack
        case h_1 => cases hPack
        case h_2 w s₁ hWord =>
          split at hPack
          case h_1 => cases hPack
          case h_2 ws₁ s₂ hWords =>
            obtain ⟨rfl, rfl⟩ := Prod.mk.inj (Option.some.inj hPack)
            rcases packWord_spec (buffered_refill hBuffered) hWord
              with ⟨ds, hCarries, hHere⟩
            rcases ih hHere.buffered hWords with
              ⟨dss, hAll, hThere, hLen, hFull⟩
            have hSame := refill_outputsamples input s
            have hStart : Packs input diff0 s s₁ ds :=
              ⟨hHere.buffered, hSame ▸ hHere.taken,
                hSame ▸ hHere.count⟩
            exact ⟨ds :: dss, .cons hCarries hAll,
              hStart.trans hThere, Nat.succ_le_succ hLen,
              fun hLeft => congrArg (· + 1) (hFull hLeft)⟩

/- The frames behind the first one. -/
theorem packFrames_spec
    {host : ByteOrder}
    {swapflag : Bool}
    {input : List Int}
    {diff0 : Int}
    {room : Nat}
    {s s' : SteimState}
    {wss : List (List SteimWord)}
    (hBuffered : Buffered input diff0 s)
    (hPack :
      packFrames host swapflag input room s = some (wss, s')) :
    ∃ dsss,
      List.Forall₂ (List.Forall₂ (CarriesDiffs host swapflag))
        wss dsss ∧
      Packs input diff0 s s' dsss.flatten.flatten ∧
      (∀ ws ∈ wss, ws.length ≤ 15) ∧ wss.length ≤ room ∧
      (s'.outputsamples < input.length →
        wss.length = room ∧ ∀ ws ∈ wss, ws.length = 15) := by
  induction room generalizing s wss with
  | zero =>
      obtain ⟨rfl, rfl⟩ := Prod.mk.inj (Option.some.inj hPack)
      exact ⟨[], .nil, .refl hBuffered, by simp, le_rfl,
        fun _ => ⟨rfl, by simp⟩⟩
  | succ room ih =>
      unfold packFrames at hPack
      split at hPack
      case isFalse hDone =>
        obtain ⟨rfl, rfl⟩ := Prod.mk.inj (Option.some.inj hPack)
        exact ⟨[], .nil, .refl hBuffered, by simp,
          Nat.zero_le _, fun hLeft => absurd hLeft hDone⟩
      case isTrue hLeft =>
        split at hPack
        case h_1 => cases hPack
        case h_2 ws s₁ hWords =>
          split at hPack
          case h_1 => cases hPack
          case h_2 wss₁ s₂ hFrames =>
            obtain ⟨rfl, rfl⟩ := Prod.mk.inj (Option.some.inj hPack)
            rcases packWords_spec hBuffered hWords with
              ⟨dss, hCarries, hHere, hFew, hFull⟩
            rcases ih hHere.buffered hFrames with
              ⟨dsss, hAll, hThere, hEach, hLen, hRest⟩
            refine ⟨dss :: dsss, .cons hCarries hAll, ?_, ?_,
              Nat.succ_le_succ hLen, ?_⟩
            · rw [List.flatten_cons, List.flatten_append]
              exact hHere.trans hThere
            · intro ws' hMem
              rcases List.mem_cons.mp hMem with rfl | hMem
              · exact hFew
              · exact hEach ws' hMem
            · intro hLeft
              have hBefore : s₁.outputsamples < input.length := by
                have hCount := hThere.count
                omega
              refine ⟨congrArg (· + 1) (hRest hLeft).1, ?_⟩
              intro ws' hMem
              rcases List.mem_cons.mp hMem with rfl | hMem
              · exact hFull hBefore
              · exact (hRest hLeft).2 ws' hMem

/- Every frame that is begun has a word. -/
theorem packWords_ne_nil
    {host : ByteOrder}
    {swapflag : Bool}
    {input : List Int}
    {room : Nat}
    {s s' : SteimState}
    {ws : List SteimWord}
    (hLeft : s.outputsamples < input.length)
    (hPack :
      packWords host swapflag input (room + 1) s =
        some (ws, s')) :
    ws ≠ [] := by
  unfold packWords at hPack
  rw [if_pos hLeft] at hPack
  split at hPack
  case h_1 => cases hPack
  case h_2 =>
    split at hPack
    case h_1 => cases hPack
    case h_2 =>
      obtain ⟨rfl, rfl⟩ := Prod.mk.inj (Option.some.inj hPack)
      exact List.cons_ne_nil _ _

theorem packFrames_ne_nil
    {host : ByteOrder}
    {swapflag : Bool}
    {input : List Int}
    {room : Nat}
    {s s' : SteimState}
    {wss : List (List SteimWord)}
    (hPack :
      packFrames host swapflag input room s = some (wss, s')) :
    ∀ ws ∈ wss, ws ≠ [] := by
  induction room generalizing s wss with
  | zero =>
      obtain ⟨rfl, rfl⟩ := Prod.mk.inj (Option.some.inj hPack)
      simp
  | succ room ih =>
      unfold packFrames at hPack
      split at hPack
      case isFalse =>
        obtain ⟨rfl, rfl⟩ := Prod.mk.inj (Option.some.inj hPack)
        simp
      case isTrue hLeft =>
        split at hPack
        case h_1 => cases hPack
        case h_2 ws s₁ hWords =>
          split at hPack
          case h_1 => cases hPack
          case h_2 wss₁ s₂ hFrames =>
            obtain ⟨rfl, rfl⟩ := Prod.mk.inj (Option.some.inj hPack)
            intro vs hMem
            rcases List.mem_cons.mp hMem with rfl | hMem
            · exact packWords_ne_nil hLeft hWords
            · exact ih hFrames vs hMem

end TankConvertor
