import Mathlib.Tactic

/-!
# Level-order heaps with one displaced entry

An array is read as a binary tree in level order: the parent of position `i`
is `(i - 1) / 2`.  A permutation that fixes all entries outside a subtree is a
permutation of the entries inside it.

Two conditions describe an array in which one entry is still on its way:
`SwimReady` when only the pair above the entry can be out of order,
`SinkReady` when only the pairs below it can be.  A swap along the edge moves
the entry and keeps the condition; when no swap is called for, the array is
ordered.  The order is any transitive relation.
-/

namespace ArrayHeaps

def parent (i : ℕ) : ℕ := (i - 1) / 2

theorem parent_lt {i : ℕ} (hi : 0 < i) : parent i < i := by
  unfold parent
  omega

inductive InSubtree (root : ℕ) : ℕ → Prop where
  | refl : InSubtree root root
  | child {i : ℕ} (hi : 0 < i) (hparent : InSubtree root (parent i)) :
      InSubtree root i

theorem InSubtree.le {root i : ℕ} (hinside : InSubtree root i) : root ≤ i := by
  induction hinside with
  | refl => exact le_rfl
  | child hi _ ih => exact ih.trans (parent_lt hi).le

theorem inSubtree_zero (i : ℕ) : InSubtree 0 i := by
  induction i using Nat.strong_induction_on with
  | _ i ih =>
      rcases Nat.eq_zero_or_pos i with rfl | hi
      · exact .refl
      · exact .child hi (ih (parent i) (parent_lt hi))

theorem InSubtree.of_iterate {root i : ℕ} (k : ℕ)
    (hroot : parent^[k] i = root) : InSubtree root i := by
  induction k generalizing i with
  | zero => exact hroot ▸ .refl
  | succ k ih =>
      rcases Nat.eq_zero_or_pos i with rfl | hi
      · -- `parent 0` is `0` again
        exact ih hroot
      · exact .child hi (ih hroot)

theorem inSubtree_iff {root i : ℕ} :
    InSubtree root i ↔ ∃ k < i + 1, parent^[k] i = root := by
  constructor
  · intro hinside
    induction hinside with
    | refl => exact ⟨0, Nat.succ_pos _, rfl⟩
    | @child i hi _ ih =>
        rcases ih with ⟨k, hk, hroot⟩
        have hlt := parent_lt hi
        exact ⟨k + 1, by omega, hroot⟩
  · rintro ⟨k, _, hroot⟩
    exact .of_iterate k hroot

instance (root : ℕ) : DecidablePred (InSubtree root) :=
  fun _ => decidable_of_iff _ inSubtree_iff.symm

variable {T : Type*}

theorem getElem?_swapIfInBounds_eq {h : Array T} {i j : ℕ}
    (hi : i < h.size) (hj : j < h.size) (k : ℕ) :
    (h.swapIfInBounds i j)[k]? =
      if k = i then h[j]? else if k = j then h[i]? else h[k]? := by
  rw [Array.swapIfInBounds_def, dif_pos hi, dif_pos hj, Array.getElem?_swap]
  by_cases hki : k = i
  · subst k
    by_cases hji : j = i
    · simp [hji]
    · simp [hji, hj]
  · by_cases hkj : k = j
    · subst k
      simp [hi, hki]
    · simp [hki, hkj, Ne.symm hki, Ne.symm hkj]

theorem perm_swapIfInBounds (h : Array T) (i j : ℕ) :
    (h.swapIfInBounds i j).Perm h := by
  rw [Array.swapIfInBounds_def]
  split_ifs with hi hj
  · exact Array.swap_perm hi hj
  · exact .refl h
  · exact .refl h

/-! ## Entries at some of the positions -/

section EntriesAt

variable (P : ℕ → Prop) [DecidablePred P]

def entriesAt (h : Array T) : Multiset T :=
  ((Multiset.range h.size).filter P).filterMap fun i => h[i]?

theorem filterMap_range_getElem? (entries : List T) :
    (List.range entries.length).filterMap (fun i => entries[i]?) = entries := by
  induction entries with
  | nil => rfl
  | cons head tail ih =>
      rw [List.length_cons, List.range_succ_eq_map, List.filterMap_cons,
        List.filterMap_map]
      exact congrArg (List.cons head) ih

theorem entriesAt_add_not (h : Array T) :
    entriesAt P h + entriesAt (fun i => ¬P i) h = (h.toList : Multiset T) := by
  unfold entriesAt
  rw [← Multiset.filterMap_add, Multiset.filter_add_not]
  have hall := congrArg Multiset.ofList (filterMap_range_getElem? h.toList)
  simp only [Array.getElem?_toList, Array.length_toList] at hall
  exact hall

variable {P}

theorem entriesAt_congr {h h' : Array T} (hsize : h'.size = h.size)
    (hsame : ∀ i, P i → h'[i]? = h[i]?) : entriesAt P h' = entriesAt P h := by
  unfold entriesAt
  rw [hsize, Multiset.filterMap_filter, Multiset.filterMap_filter]
  congr 1
  funext i
  by_cases hi : P i
  · rw [if_pos hi, if_pos hi, hsame i hi]
  · rw [if_neg hi, if_neg hi]

/-- A permutation that fixes the entries elsewhere permutes the entries here. -/
theorem entriesAt_eq_of_perm {h h' : Array T} (hperm : h'.Perm h)
    (helse : ∀ i, ¬P i → h'[i]? = h[i]?) : entriesAt P h' = entriesAt P h := by
  have hrest := entriesAt_congr hperm.size_eq helse
  have hall : (h'.toList : Multiset T) = h.toList :=
    Multiset.coe_eq_coe.mpr hperm.toList
  rw [← entriesAt_add_not P, ← entriesAt_add_not P h, hrest] at hall
  exact add_right_cancel hall

end EntriesAt

/-! ## Ordered pairs -/

variable (ge : T → T → Prop)

/-- Wherever both positions exist, the entry at `i` bounds the one at `j`. -/
def Bounds (h : Array T) (i j : ℕ) : Prop :=
  ∀ a ∈ h[i]?, ∀ b ∈ h[j]?, ge a b

def IsHeap (h : Array T) : Prop :=
  ∀ i, 0 < i → Bounds ge h (parent i) i

structure SwimReady (h : Array T) (pos : ℕ) : Prop where
  ordered : ∀ i, 0 < i → i ≠ pos → Bounds ge h (parent i) i
  grand : 0 < pos → ∀ i, 0 < i → parent i = pos → Bounds ge h (parent pos) i

structure SinkReady (h : Array T) (start pos : ℕ) : Prop where
  inside : InSubtree start pos
  ordered : ∀ i, 0 < i → InSubtree start (parent i) → parent i ≠ pos →
    Bounds ge h (parent i) i
  grand : pos ≠ start → ∀ i, 0 < i → parent i = pos →
    Bounds ge h (parent pos) i

variable {ge}

theorem Bounds.trans [IsTrans T ge] {h : Array T} {i j k : ℕ}
    (hij : Bounds ge h i j) (hjk : Bounds ge h j k) (hj : j < h.size) :
    Bounds ge h i k := by
  intro a ha c hc
  have hb : h[j] ∈ h[j]? := by simp
  exact IsTrans.trans _ _ _ (hij a ha _ hb) (hjk _ hb c hc)

theorem Bounds.of_size_le {h : Array T} {i j : ℕ} (hj : h.size ≤ j) :
    Bounds ge h i j := by
  intro a _ b hb
  simp [Array.getElem?_eq_none hj] at hb

theorem IsHeap.bounds_root [Std.Refl ge] [IsTrans T ge] {h : Array T}
    (hheap : IsHeap ge h) (i : ℕ) : Bounds ge h 0 i := by
  induction i using Nat.strong_induction_on with
  | _ i ih =>
      rcases Nat.eq_zero_or_pos i with rfl | hi
      · intro a ha b hb
        rw [Option.mem_def] at ha hb
        obtain rfl : a = b := by simpa [ha] using hb
        exact refl_of ge a
      · rcases lt_or_ge i h.size with hsize | hsize
        · have hparent := parent_lt hi
          exact (ih (parent i) hparent).trans (hheap i hi)
            (hparent.trans hsize)
        · exact .of_size_le hsize

/-! ## An entry on its way up -/

theorem SwimReady.isHeap {h : Array T} {pos : ℕ}
    (hready : SwimReady ge h pos)
    (hstop : 0 < pos → Bounds ge h (parent pos) pos) : IsHeap ge h := by
  intro i hi
  by_cases hpos : i = pos
  · subst i
    exact hstop hi
  · exact hready.ordered i hi hpos

theorem SwimReady.swap [IsTrans T ge] {h : Array T} {pos : ℕ}
    (hready : SwimReady ge h pos) (hpos : 0 < pos) (hsize : pos < h.size)
    (hup : Bounds ge h pos (parent pos)) :
    SwimReady ge (h.swapIfInBounds (parent pos) pos) (parent pos) := by
  have hlt := parent_lt hpos
  have hparentSize : parent pos < h.size := hlt.trans hsize
  have hget := getElem?_swapIfInBounds_eq hparentSize hsize
  constructor
  · intro i hi hne a ha b hb
    rw [hget] at ha hb
    rw [if_neg hne] at hb
    by_cases hself : i = pos
    · -- the swapped pair itself
      subst i
      rw [if_pos rfl] at ha hb
      exact hup a ha b hb
    · rw [if_neg hself] at hb
      by_cases hsibling : parent i = parent pos
      · rw [if_pos hsibling] at ha
        have hold := hready.ordered i hi hself
        rw [hsibling] at hold
        exact hup.trans hold hparentSize a ha b hb
      · rw [if_neg hsibling] at ha
        by_cases hchild : parent i = pos
        · rw [if_pos hchild] at ha
          exact hready.grand hpos i hi hchild a ha b hb
        · rw [if_neg hchild] at ha
          exact hready.ordered i hi hself a ha b hb
  · intro hparentPos i hi hparent a ha b hb
    have hgrandLt := parent_lt hparentPos
    rw [hget, if_neg (by omega), if_neg (by omega)] at ha
    rw [hget, if_neg (by rintro rfl; exact (parent_lt hi).ne hparent)] at hb
    have habove := hready.ordered (parent pos) hparentPos hlt.ne
    by_cases hself : i = pos
    · rw [if_pos hself] at hb
      exact habove a ha b hb
    · rw [if_neg hself] at hb
      have hold := hready.ordered i hi hself
      rw [hparent] at hold
      exact habove.trans hold hparentSize a ha b hb

/-! ## An entry on its way down -/

theorem SinkReady.ordered_of_stop {h : Array T} {start pos : ℕ}
    (hready : SinkReady ge h start pos)
    (hstop : ∀ i, 0 < i → parent i = pos → Bounds ge h pos i)
    {i : ℕ} (hi : 0 < i) (hinside : InSubtree start (parent i)) :
    Bounds ge h (parent i) i := by
  by_cases hpos : parent i = pos
  · rw [hpos]
    exact hstop i hi hpos
  · exact hready.ordered i hi hinside hpos

theorem SinkReady.swap {h : Array T} {start pos i : ℕ}
    (hready : SinkReady ge h start pos) (hi : 0 < i) (hparent : parent i = pos)
    (hsize : i < h.size) (hdown : Bounds ge h i pos)
    (hlargest : ∀ j, 0 < j → parent j = pos → j ≠ i → Bounds ge h i j) :
    SinkReady ge (h.swapIfInBounds pos i) start i := by
  have hlt : pos < i := hparent ▸ parent_lt hi
  have hget := getElem?_swapIfInBounds_eq (hlt.trans hsize) hsize
  refine ⟨.child hi (hparent ▸ hready.inside), ?_, ?_⟩
  · intro j hj hinside hne a ha b hb
    rw [hget] at ha hb
    rw [if_neg hne] at ha
    by_cases hchild : parent j = pos
    · rw [if_pos hchild] at ha
      rw [if_neg (by have := parent_lt hj; omega)] at hb
      by_cases hself : j = i
      · rw [if_pos hself] at hb
        exact hdown a ha b hb
      · rw [if_neg hself] at hb
        exact hlargest j hj hchild hself a ha b hb
    · rw [if_neg hchild] at ha
      by_cases hself : j = pos
      · -- the pair above the old place now holds the larger child
        subst j
        rw [if_pos rfl] at hb
        have hstart : pos ≠ start := by
          rintro rfl
          have := hinside.le
          have := parent_lt hj
          omega
        exact hready.grand hstart i hi hparent a ha b hb
      · rw [if_neg hself, if_neg (by rintro rfl; exact hchild hparent)] at hb
        exact hready.ordered j hj hinside hchild a ha b hb
  · intro _ j hj hjparent a ha b hb
    have hjlt := parent_lt hj
    rw [hparent, hget, if_pos rfl] at ha
    rw [hget, if_neg (by omega), if_neg (by omega)] at hb
    have hinside : InSubtree start i := .child hi (hparent ▸ hready.inside)
    have hold := hready.ordered j hj (hjparent ▸ hinside) (by omega)
    rw [hjparent] at hold
    exact hold a ha b hb

end ArrayHeaps
