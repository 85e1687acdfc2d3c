import TankConvertor.Mseed.Model
import TankConvertor.Convert.Width

/-
  The sample pointer with which `msr3_free` is reached, and
  a tank for which it still leads into the tank.

  Key theorems include:
    * `datasamples_of_msBody`
    * `nothing_borrowed_iff`
    * `oddTank_borrowed`
-/

------------------------------------------------------------
-- The Pointer After The Loop
------------------------------------------------------------

namespace TankConvertor

/- One iteration leaves NULL, or a pointer into the tank. -/
theorem datasamples_of_msBody
    [Rounding]
    (host : ByteOrder)
    (addmsr : MsRecord → Bool)
    (sid : SidArgs)
    (s : MsState)
    (p : Packet) :
    (msBody host addmsr sid s p).datasamples =
      if p.format = none then .tank else .null := by
  unfold msBody
  cases hFormat : p.format with
  | none => simp
  | some k => rfl

/-
  Nothing borrowed is freed, whatever `mstl3_addmsr`
  answers, exactly when the last tracebuf of the list has a
  format that the converter knows.
-/
theorem nothing_borrowed_iff
    [Rounding]
    (host : ByteOrder)
    (now : Int)
    (addmsr : MsRecord → Bool)
    (buf : Int32Buf)
    (n : TraceNode)
    (packets : List Packet) :
    (msprocTlistAdd host now addmsr buf n packets).datasamples =
        .null ↔
      ∀ p ∈ packets.getLast?, p.format ≠ none := by
  unfold msprocTlistAdd
  induction packets using List.reverseRecOn with
  | nil => simp [msInit]
  | append_singleton packets p _ =>
      rw [List.foldl_append, List.foldl_cons, List.foldl_nil,
        datasamples_of_msBody]
      by_cases hFormat : p.format = none
      · simp [hFormat]
      · simp [hFormat]

------------------------------------------------------------
-- A Pointer Into The Tank
------------------------------------------------------------

attribute [local instance] Rounding.nearest

/- The scan stores the odd header; its data would be freed. -/
theorem oddTank_borrowed :
    ∃ r n,
      (scanLoop .little oddTank.length).Ends
          (scanInit (mapTank oddTank (fun _ => 0))) r ∧
        n ∈ r.traceList ∧
        (msprocTlistAdd .little 0 (fun _ => true)
          Int32Buf.initial n
          (n.packets .little r.mem)).datasamples = .tank := by
  have hScan :
      (scanTracebuf .little oddTank.length 1
        (mapTank oddTank (fun _ => 0))).map
          (fun r =>
            r.traceList.map
              (fun n =>
                (msprocTlistAdd .little 0 (fun _ => true)
                  Int32Buf.initial n
                  (n.packets .little r.mem)).datasamples)) =
        some [.tank] := by
    decide +kernel
  rcases Option.map_eq_some_iff.mp hScan with ⟨r, hRun, hAll⟩
  have hMem : DataPtr.tank ∈ [DataPtr.tank] := by simp
  rw [← hAll] at hMem
  rcases List.mem_map.mp hMem with ⟨n, hn, hPtr⟩
  exact ⟨r, n, ⟨1, hRun⟩, hn, hPtr⟩

end TankConvertor
