import Mathlib.Data.List.GetD
import TankConvertor.Library.CopyLoop
import TankConvertor.Sac.Store

/-
  `enrich_sac_samps` on the buffer it writes: the position
  in the buffer and the position in the packet are taken in
  and handed back, so that a copy which met the end of the
  buffer goes on where it stopped.

  Key definitions include:
    * `enrichSacSampsInto`
    * `CopiesInto`
    * `Holds`

  Key theorems include:
    * `enrichSacSampsInto_resumable`
    * `enrichSacSampsInto_refines`
-/

------------------------------------------------------------
-- The Routine And Its Buffer
------------------------------------------------------------

namespace TankConvertor

open CopyLoop

/- The sample at a position of the packet's data. -/
def sampAt
    (host : ByteOrder)
    (k : SampleKind)
    (p : Packet)
    (src : Nat) :
    SacWord :=
  k.sacword host (p.dataAt src k.width)

/-
  `*samps`, `*srcptr` and the buffer after the call, with
  the return value.  Positions in the buffer count words,
  those in the packet count bytes of data.
-/
def enrichSacSampsInto
    (host : ByteOrder)
    (p : Packet)
    (bufend : Nat)
    (c : Cursor SacWord) :
    Int × Cursor SacWord :=
  match p.format with
  | none => (-1, c)
  | some k =>
      (0, copyTo (sampAt host k p) k.width p.dataSize bufend c)

variable {host : ByteOrder}
variable {p : Packet}
variable {k : SampleKind}

theorem enrichSacSampsInto_of_format
    (host : ByteOrder)
    (hFormat : p.format = some k)
    (bufend : Nat)
    (c : Cursor SacWord) :
    enrichSacSampsInto host p bufend c =
      (0,
        copyTo (sampAt host k p) k.width p.dataSize bufend c) := by
  unfold enrichSacSampsInto
  rw [hFormat]

------------------------------------------------------------
-- Resuming A Copy
------------------------------------------------------------

/-
  The call copies `m` samples from sample `j` on, in order
  and one after the other, each read from its own bytes of
  the message, and nothing else changes, least of all a word
  at or past the limit.
-/
structure CopiesInto
    (host : ByteOrder)
    (k : SampleKind)
    (p : Packet)
    (j m bufend : Nat)
    (c : Cursor SacWord)
    (r : Int × Cursor SacWord) : Prop where
  ret : r.1 = 0
  samps : r.2.dst = c.dst + m
  srcptr : r.2.src = k.width * (j + m)
  copied :
    ∀ i, i < m →
      r.2.buf (c.dst + i) =
        k.sacword host
          ((List.range k.width).map (fun b =>
            p.text (headerRest + k.width * (j + i) + b)))
  before : ∀ i, i < c.dst → r.2.buf i = c.buf i
  after : ∀ i, c.dst + m ≤ i → r.2.buf i = c.buf i
  limit : ∀ i, bufend ≤ i → r.2.buf i = c.buf i

/- Samples put in place up to the limit at most. -/
theorem copiesInto_blit
    (host : ByteOrder)
    (k : SampleKind)
    (p : Packet)
    (buf : Nat → SacWord)
    {d m bufend : Nat}
    (hRoom : m ≤ bufend - d)
    (j src : Nat) :
    let f := fun i => sampAt host k p (k.width * (j + i))
    CopiesInto host k p j m bufend ⟨buf, d, src⟩
      (0, ⟨blit buf d m f, d + m, k.width * (j + m)⟩) := by
  intro f
  refine ⟨rfl, rfl, rfl, fun _ hi => blit_add buf f hi,
    fun _ hi => blit_of_lt buf f hi,
    fun _ hi => blit_of_le buf f hi, ?_⟩
  intro i hi
  by_cases hBefore : i < d
  · exact blit_of_lt buf f hBefore
  · have hPast : d + m ≤ i := by omega
    exact blit_of_le buf f hPast

/- One call takes the samples left, or fills the buffer. -/
theorem copiesInto_of_format
    (host : ByteOrder)
    (hFormat : p.format = some k)
    {n j : Nat}
    (hWhole : p.dataSize = k.width * n)
    (hLe : j ≤ n)
    (buf : Nat → SacWord)
    (d bufend : Nat) :
    CopiesInto host k p j (min (n - j) (bufend - d)) bufend
      ⟨buf, d, k.width * j⟩
      (enrichSacSampsInto host p bufend
        ⟨buf, d, k.width * j⟩) := by
  rw [enrichSacSampsInto_of_format host hFormat, hWhole,
    copyTo_eq (sampAt host k p) k.width_pos buf bufend d hLe]
  exact copiesInto_blit host k p buf (Nat.min_le_right _ _) j _

/-
  The copy up to `b₁`, resumed up to `b₂`, is the copy up to
  `b₂`; every single call copies what is left, or as much as
  there is room for.
-/
theorem enrichSacSampsInto_resumable
    (host : ByteOrder)
    (hFormat : p.format = some k)
    {n j : Nat}
    (hWhole : p.dataSize = k.width * n)
    (hLe : j ≤ n)
    (buf : Nat → SacWord)
    {d b₁ b₂ : Nat}
    (hFirst : d ≤ b₁)
    (hSecond : b₁ ≤ b₂) :
    let c : Cursor SacWord := ⟨buf, d, k.width * j⟩
    let m := fun b => min (n - j) (b - d)
    let part := enrichSacSampsInto host p b₁ c
    enrichSacSampsInto host p b₂ part.2 =
        enrichSacSampsInto host p b₂ c ∧
      CopiesInto host k p j (m b₁) b₁ c part ∧
      CopiesInto host k p (j + m b₁)
        (min (n - (j + m b₁)) (b₂ - (d + m b₁))) b₂ part.2
        (enrichSacSampsInto host p b₂ part.2) ∧
      CopiesInto host k p j (m b₂) b₂ c
        (enrichSacSampsInto host p b₂ c) := by
  intro c m part
  have hOne :=
    copiesInto_of_format host hFormat hWhole hLe buf d
  have hMiddle :
      part.2 =
        ⟨part.2.buf, d + m b₁, k.width * (j + m b₁)⟩ := by
    have hPart := hOne b₁
    calc
      part.2 = ⟨part.2.buf, part.2.dst, part.2.src⟩ := rfl
      _ = _ := by rw [hPart.samps, hPart.srcptr]
  have hInside : j + m b₁ ≤ n := by
    simp only [m]
    omega
  refine ⟨?_, hOne b₁, ?_, hOne b₂⟩
  · simp only [part, enrichSacSampsInto_of_format host hFormat,
      copyTo_resume hSecond]
  · rw [hMiddle]
    exact copiesInto_of_format host hFormat hWhole hInside
      part.2.buf (d + m b₁) b₂

/- Three samples, into room for two and then for more. -/
theorem three_samples_resumable :
    let p := { Packet.single 0 with nsamp := 3, size := 76 }
    let c : Cursor SacWord := ⟨fun _ => sacUndef, 0, 0⟩
    enrichSacSampsInto .little p 10
        (enrichSacSampsInto .little p 2 c).2 =
      enrichSacSampsInto .little p 10 c := by
  intro p c
  have hFormat : p.format = some .i4 :=
    Packet.formatOf_zeroText .i4
  exact
    (enrichSacSampsInto_resumable .little hFormat (n := 3)
      (j := 0) rfl (by decide) c.buf (d := 0) (by decide)
      (by decide)).1

------------------------------------------------------------
-- The Words Of The Buffer
------------------------------------------------------------

/- The buffer begins with the words. -/
def Holds
    (buf : Nat → SacWord)
    (words : List SacWord) : Prop :=
  ∀ i (hi : i < words.length), buf i = words[i]

/- The words that a copy collects are those it writes. -/
theorem copyTo_copySamps
    (host : ByteOrder)
    (k : SampleKind)
    (p : Packet)
    (buf : Nat → SacWord)
    (bufend dst src : Nat) :
    let copied := copySamps host k p (bufend - dst) src
    copyTo (sampAt host k p) k.width p.dataSize bufend
        ⟨buf, dst, src⟩ =
      ⟨blit buf dst copied.1.length (fun i => copied.1.getD i 0),
        dst + copied.1.length, copied.2⟩ := by
  induction hRoom : bufend - dst generalizing buf dst src with
  | zero =>
      intro copied
      rw [copyTo_stop (by simp only []; omega)]
      simp [copied, copySamps]
  | succ room ih =>
      intro copied
      by_cases hSrc : src < p.dataSize
      · have hCopied :
            copied =
              (sampAt host k p src ::
                  (copySamps host k p room (src + k.width)).1,
                (copySamps host k p room (src + k.width)).2) := by
          simp only [copied, copySamps, if_pos hSrc, sampAt]
        have hBlit :=
          blit_update buf dst
            (copySamps host k p room (src + k.width)).1.length
            (fun i => copied.1.getD i 0)
        rw [copyTo_step hSrc (by simp only []; omega),
          Cursor.step]
        simp only []
        rw [ih _ (dst + 1) (src + k.width) (by omega)]
        rw [hCopied] at hBlit ⊢
        simp only [List.getD_cons_zero, List.getD_cons_succ,
          List.length_cons] at hBlit ⊢
        rw [hBlit, Nat.add_right_comm, Nat.add_assoc]
      · rw [copyTo_stop (fun h => hSrc h.1)]
        simp [copied, copySamps, if_neg hSrc]

theorem holds_blit
    {buf : Nat → SacWord}
    {words : List SacWord}
    (hHolds : Holds buf words)
    (more : List SacWord) :
    Holds
      (blit buf words.length more.length
        (fun i => more.getD i 0))
      (words ++ more) := by
  intro i hi
  rw [List.length_append] at hi
  by_cases hOld : i < words.length
  · rw [blit_of_lt _ _ hOld, hHolds i hOld,
      List.getElem_append_left hOld]
  · obtain ⟨j, rfl⟩ := Nat.exists_eq_add_of_le (not_lt.mp hOld)
    rw [blit_add _ _ (by omega), List.getElem_append_right (by omega),
      List.getD_eq_getElem _ _ (by omega)]
    simp

/-
  The copy that appends to the words is the copy into a
  buffer that holds them, with the same positions after it.
-/
theorem enrichSacSampsInto_refines
    {s s' : SacState}
    {src src' : Nat}
    {buf : Nat → SacWord}
    (hHolds : Holds buf s.words)
    (hCopy : enrichSacSamps host p src s = some (s', src')) :
    ∃ buf',
      enrichSacSampsInto host p s.capacity
          ⟨buf, s.words.length, src⟩ =
        (0, ⟨buf', s'.words.length, src'⟩) ∧
      Holds buf' s'.words := by
  unfold enrichSacSamps at hCopy
  cases hFormat : p.format with
  | none => simp [hFormat] at hCopy
  | some k =>
      simp only [hFormat, Option.some.injEq,
        Prod.mk.injEq] at hCopy
      rcases hCopy with ⟨rfl, rfl⟩
      rw [enrichSacSampsInto_of_format host hFormat]
      refine ⟨_, ?_, holds_blit hHolds _⟩
      rw [copyTo_copySamps, List.length_append]
      rfl

end TankConvertor
