import Mathlib.Tactic
import Mathlib.Data.List.Sort

/-
  Binary search trees driven by a comparison function that
  returns a negative, zero or positive number, as the tree
  routines of the C library are.

  Key definitions include:
    * `SearchTree`
    * `SearchTree.tfind`
    * `SearchTree.tsearch`
    * `SearchTree.update`
    * `SearchTree.twalk`
    * `ComparesBy`

  Key theorems include:
    * `SearchTree.tfind_eq_none_iff`
    * `SearchTree.tfind_eq_some`
    * `SearchTree.twalk_tsearch_perm`
    * `SearchTree.twalk_update`
    * `SearchTree.twalk_update_perm`
-/

/- A tree with a value at every inner node. -/
inductive SearchTree (α : Type) where
| leaf
| node (left : SearchTree α) (value : α) (right : SearchTree α)

/-
  A comparison function orders values by a key: negative
  when the first key is smaller, zero when the keys agree.
-/
structure ComparesBy
    {α κ : Type} [LinearOrder κ]
    (compar : α → α → Int)
    (key : α → κ) : Prop where
  neg_iff : ∀ a b, compar a b < 0 ↔ key a < key b
  zero_iff : ∀ a b, compar a b = 0 ↔ key a = key b

namespace SearchTree

variable {α κ : Type}

/- The value that compares equal to `k`. -/
def tfind
    (compar : α → α → Int)
    (k : α) : SearchTree α → Option α
| .leaf => none
| .node l v r =>
    if compar k v < 0 then tfind compar k l
    else if compar k v = 0 then some v
    else tfind compar k r

/- Insert `k` unless a value comparing equal is there. -/
def tsearch
    (compar : α → α → Int)
    (k : α) : SearchTree α → SearchTree α
| .leaf => .node .leaf k .leaf
| .node l v r =>
    if compar k v < 0 then .node (tsearch compar k l) v r
    else if compar k v = 0 then .node l v r
    else .node l v (tsearch compar k r)

/- Rewrite in place the value that compares equal to `k`. -/
def update
    (compar : α → α → Int)
    (k : α)
    (f : α → α) : SearchTree α → SearchTree α
| .leaf => .leaf
| .node l v r =>
    if compar k v < 0 then .node (update compar k f l) v r
    else if compar k v = 0 then .node l (f v) r
    else .node l v (update compar k f r)

/- The values in the order of an in-order visit. -/
def twalk : SearchTree α → List α
| .leaf => []
| .node l v r => twalk l ++ v :: twalk r

/- The visit meets the keys in strictly increasing order. -/
def Ordered
    [LinearOrder κ]
    (key : α → κ)
    (t : SearchTree α) : Prop :=
  t.twalk.Pairwise (fun a b => key a < key b)

variable [LinearOrder κ]
variable {compar : α → α → Int} {key : α → κ}

/- The three outcomes of a comparison. -/
theorem compare_cases
    (hCmp : ComparesBy compar key)
    (a b : α) :
    (key a < key b ∧ compar a b < 0) ∨
      (key a = key b ∧ compar a b = 0) ∨
      (key b < key a ∧ 0 < compar a b) := by
  rcases lt_trichotomy (key a) (key b) with h | h | h
  · exact Or.inl ⟨h, (hCmp.neg_iff a b).mpr h⟩
  · exact Or.inr (Or.inl ⟨h, (hCmp.zero_iff a b).mpr h⟩)
  · refine Or.inr (Or.inr ⟨h, ?_⟩)
    have hNeg : ¬ compar a b < 0 := by
      rw [hCmp.neg_iff]
      exact not_lt.mpr h.le
    have hZero : compar a b ≠ 0 := by
      rw [Ne, hCmp.zero_iff]
      exact h.ne'
    omega

/- What an ordered inner node says of its two subtrees. -/
theorem ordered_node_iff
    {l r : SearchTree α}
    {v : α} :
    Ordered key (.node l v r) ↔
      Ordered key l ∧ Ordered key r ∧
        (∀ a ∈ l.twalk, key a < key v) ∧
        (∀ b ∈ r.twalk, key v < key b) := by
  unfold Ordered
  simp only [twalk, List.pairwise_append, List.pairwise_cons,
    List.mem_cons]
  constructor
  · rintro ⟨hl, ⟨hv, hr⟩, hAcross⟩
    exact ⟨hl, hr, fun a ha => hAcross a ha v (Or.inl rfl), hv⟩
  · rintro ⟨hl, hr, hLeft, hRight⟩
    refine ⟨hl, ⟨hRight, hr⟩, ?_⟩
    intro a ha b hb
    rcases hb with rfl | hb
    · exact hLeft a ha
    · exact (hLeft a ha).trans (hRight b hb)

/- A search finds a value of the tree with the same key. -/
theorem tfind_eq_some
    (hCmp : ComparesBy compar key)
    {k v : α}
    {t : SearchTree α}
    (hFind : t.tfind compar k = some v) :
    v ∈ t.twalk ∧ key v = key k := by
  induction t with
  | leaf => simp [tfind] at hFind
  | node l w r ihl ihr =>
      rcases compare_cases hCmp k w with
        ⟨_, hC⟩ | ⟨hKey, hC⟩ | ⟨_, hC⟩
      · rw [tfind, if_pos hC] at hFind
        rcases ihl hFind with ⟨hMem, hEq⟩
        exact ⟨by simp [twalk, hMem], hEq⟩
      · rw [tfind, if_neg (by omega), if_pos hC] at hFind
        cases hFind
        exact ⟨by simp [twalk], hKey.symm⟩
      · rw [tfind, if_neg (by omega), if_neg (by omega)]
          at hFind
        rcases ihr hFind with ⟨hMem, hEq⟩
        exact ⟨by simp [twalk, hMem], hEq⟩

/- A search fails exactly when the key is absent. -/
theorem tfind_eq_none_iff
    (hCmp : ComparesBy compar key)
    {k : α}
    {t : SearchTree α}
    (hOrd : Ordered key t) :
    t.tfind compar k = none ↔
      ∀ v ∈ t.twalk, key v ≠ key k := by
  induction t with
  | leaf => simp [tfind, twalk]
  | node l w r ihl ihr =>
      rcases ordered_node_iff.mp hOrd with
        ⟨hl, hr, hLeft, hRight⟩
      rcases compare_cases hCmp k w with
        ⟨hKey, hC⟩ | ⟨hKey, hC⟩ | ⟨hKey, hC⟩
      · rw [tfind, if_pos hC, ihl hl]
        constructor
        · intro h v hv
          simp only [twalk, List.mem_append, List.mem_cons]
            at hv
          rcases hv with hv | rfl | hv
          · exact h v hv
          · exact hKey.ne'
          · exact (hKey.trans (hRight v hv)).ne'
        · intro h v hv
          exact h v (by simp [twalk, hv])
      · rw [tfind, if_neg (by omega), if_pos hC]
        constructor
        · intro h
          simp at h
        · intro h
          exact (h w (by simp [twalk]) hKey.symm).elim
      · rw [tfind, if_neg (by omega), if_neg (by omega),
          ihr hr]
        constructor
        · intro h v hv
          simp only [twalk, List.mem_append, List.mem_cons]
            at hv
          rcases hv with hv | rfl | hv
          · exact ((hLeft v hv).trans hKey).ne
          · exact hKey.ne
          · exact h v hv
        · intro h v hv
          exact h v (by simp [twalk, hv])

/- Insertion adds one value and loses none. -/
theorem twalk_tsearch_perm
    (hCmp : ComparesBy compar key)
    {k : α}
    {t : SearchTree α}
    (hAbsent : ∀ v ∈ t.twalk, key v ≠ key k) :
    (t.tsearch compar k).twalk.Perm (k :: t.twalk) := by
  induction t with
  | leaf => simp [tsearch, twalk]
  | node l w r ihl ihr =>
      rcases compare_cases hCmp k w with
        ⟨_, hC⟩ | ⟨hKey, _⟩ | ⟨_, hC⟩
      · rw [tsearch, if_pos hC]
        have hSub := ihl (fun v hv =>
          hAbsent v (by simp [twalk, hv]))
        simpa [twalk] using hSub.append_right (w :: r.twalk)
      · exact
          (hAbsent w (by simp [twalk]) hKey.symm).elim
      · rw [tsearch, if_neg (by omega), if_neg (by omega)]
        have hSub := ihr (fun v hv =>
          hAbsent v (by simp [twalk, hv]))
        simp only [twalk]
        have hInner := (hSub.cons w).append_left l.twalk
        have hSwap :=
          (List.Perm.swap k w r.twalk).append_left l.twalk
        exact (hInner.trans hSwap).trans List.perm_middle

/- Insertion keeps the order. -/
theorem ordered_tsearch
    (hCmp : ComparesBy compar key)
    {k : α}
    {t : SearchTree α}
    (hOrd : Ordered key t)
    (hAbsent : ∀ v ∈ t.twalk, key v ≠ key k) :
    Ordered key (t.tsearch compar k) := by
  induction t with
  | leaf => simp [tsearch, Ordered, twalk]
  | node l w r ihl ihr =>
      rcases ordered_node_iff.mp hOrd with
        ⟨hl, hr, hLeft, hRight⟩
      have hAbsentL : ∀ v ∈ l.twalk, key v ≠ key k :=
        fun v hv => hAbsent v (by simp [twalk, hv])
      have hAbsentR : ∀ v ∈ r.twalk, key v ≠ key k :=
        fun v hv => hAbsent v (by simp [twalk, hv])
      rcases compare_cases hCmp k w with
        ⟨hKey, hC⟩ | ⟨hKey, _⟩ | ⟨hKey, hC⟩
      · rw [tsearch, if_pos hC]
        refine ordered_node_iff.mpr
          ⟨ihl hl hAbsentL, hr, ?_, hRight⟩
        intro a ha
        have hPerm := twalk_tsearch_perm hCmp hAbsentL
        rcases List.mem_cons.mp (hPerm.mem_iff.mp ha) with
          rfl | ha
        · exact hKey
        · exact hLeft a ha
      · exact
          (hAbsent w (by simp [twalk]) hKey.symm).elim
      · rw [tsearch, if_neg (by omega), if_neg (by omega)]
        refine ordered_node_iff.mpr
          ⟨hl, ihr hr hAbsentR, hLeft, ?_⟩
        intro b hb
        have hPerm := twalk_tsearch_perm hCmp hAbsentR
        rcases List.mem_cons.mp (hPerm.mem_iff.mp hb) with
          rfl | hb
        · exact hKey
        · exact hRight b hb

/- Rewriting by key leaves a list without the key alone. -/
private theorem map_of_absent
    {k : α}
    (f : α → α)
    {ws : List α}
    (hNe : ∀ w ∈ ws, key w ≠ key k) :
    ws.map (fun w => if key w = key k then f w else w) =
      ws := by
  conv_rhs => rw [← List.map_id ws]
  apply List.map_congr_left
  intro w hw
  simp [hNe w hw]

/- An update in place rewrites the one value with the key. -/
theorem twalk_update
    (hCmp : ComparesBy compar key)
    {k : α}
    {f : α → α}
    {t : SearchTree α}
    (hOrd : Ordered key t) :
    (t.update compar k f).twalk =
      t.twalk.map
        (fun v => if key v = key k then f v else v) := by
  induction t with
  | leaf => rfl
  | node l w r ihl ihr =>
      rcases ordered_node_iff.mp hOrd with
        ⟨hl, hr, hLeft, hRight⟩
      rcases compare_cases hCmp k w with
        ⟨hKey, hC⟩ | ⟨hKey, hC⟩ | ⟨hKey, hC⟩
      · have hAbsent : ∀ v ∈ r.twalk, key v ≠ key k :=
          fun v hv => (hKey.trans (hRight v hv)).ne'
        rw [update, if_pos hC]
        simp only [twalk, List.map_append, List.map_cons]
        rw [ihl hl, if_neg hKey.ne', map_of_absent f hAbsent]
      · have hAbsentL : ∀ v ∈ l.twalk, key v ≠ key k :=
          fun v hv => by
            rw [hKey]
            exact (hLeft v hv).ne
        have hAbsentR : ∀ v ∈ r.twalk, key v ≠ key k :=
          fun v hv => by
            rw [hKey]
            exact (hRight v hv).ne'
        rw [update, if_neg (by omega), if_pos hC]
        simp only [twalk, List.map_append, List.map_cons]
        rw [if_pos hKey.symm, map_of_absent f hAbsentL,
          map_of_absent f hAbsentR]
      · have hAbsent : ∀ v ∈ l.twalk, key v ≠ key k :=
          fun v hv => ((hLeft v hv).trans hKey).ne
        rw [update, if_neg (by omega), if_neg (by omega)]
        simp only [twalk, List.map_append, List.map_cons]
        rw [ihr hr, if_neg hKey.ne, map_of_absent f hAbsent]

/- Up to order, an update replaces one value of the tree. -/
theorem twalk_update_perm
    (hCmp : ComparesBy compar key)
    {k v : α}
    {f : α → α}
    {t : SearchTree α}
    (hOrd : Ordered key t)
    (hMem : v ∈ t.twalk)
    (hKey : key v = key k) :
    ∃ rest,
      t.twalk.Perm (v :: rest) ∧
        (t.update compar k f).twalk.Perm (f v :: rest) := by
  rcases List.append_of_mem hMem with ⟨as, bs, hSplit⟩
  have hPairs := hOrd
  unfold Ordered at hPairs
  rw [hSplit, List.pairwise_append, List.pairwise_cons]
    at hPairs
  rcases hPairs with ⟨_, ⟨hAfter, _⟩, hBefore⟩
  have hAs : ∀ w ∈ as, key w ≠ key k := by
    intro w hw
    rw [← hKey]
    exact (hBefore w hw v (by simp)).ne
  have hBs : ∀ w ∈ bs, key w ≠ key k := by
    intro w hw
    rw [← hKey]
    exact (hAfter w hw).ne'
  refine ⟨as ++ bs, ?_, ?_⟩
  · rw [hSplit]
    exact List.perm_middle
  · rw [twalk_update hCmp hOrd, hSplit, List.map_append,
      List.map_cons, if_pos hKey, map_of_absent f hAs,
      map_of_absent f hBs]
    exact List.perm_middle

/- An update that keeps the keys keeps the order. -/
theorem ordered_update
    (hCmp : ComparesBy compar key)
    {k : α}
    {f : α → α}
    {t : SearchTree α}
    (hOrd : Ordered key t)
    (hKeep : ∀ v, key (f v) = key v) :
    Ordered key (t.update compar k f) := by
  unfold Ordered
  rw [twalk_update hCmp hOrd, List.pairwise_map]
  refine hOrd.imp ?_
  intro a b hLt
  split <;> split <;> simpa [hKeep] using hLt

end SearchTree
