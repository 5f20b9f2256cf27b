import Miscellaneous.PriorityQueue
import Mathlib.Tactic

/-!
# The two sift loops restore the heap

`swim` and `sink` never read outside the array, stop, permute the entries
along one path of the tree and leave an ordered array behind.
-/

namespace Miscellaneous.PriorityQueue

open ArrayHeaps

variable {T : Type*} {cmp : Comparison T}

theorem bounds_of_entries {heap : Array T} {i j : ℕ} {a b : T}
    (ha : heap[i]? = some a) (hb : heap[j]? = some b)
    (hab : cmp.NotLess a b) : Bounds cmp.NotLess heap i j := by
  intro x hx y hy
  rw [ha, Option.mem_some_iff] at hx
  rw [hb, Option.mem_some_iff] at hy
  exact hx ▸ hy ▸ hab

theorem bounds_iff (hlaw : cmp.Lawful) {heap : Array T} {i j : ℕ}
    (hi : i < heap.size) (hj : j < heap.size) :
    Bounds cmp.NotLess heap i j ↔ cmp.ge heap[i] heap[j] = true := by
  constructor
  · intro hbounds
    have hnotLess := hbounds _ (Array.getElem?_eq_getElem hi) _
      (Array.getElem?_eq_getElem hj)
    simpa [hlaw.ge_eq, Comparison.NotLess] using hnotLess
  · intro hge
    refine bounds_of_entries (Array.getElem?_eq_getElem hi)
      (Array.getElem?_eq_getElem hj) ?_
    simpa [hlaw.ge_eq, Comparison.NotLess] using hge

theorem eq_or_eq_of_parent_eq {i pos : ℕ} (hi : 0 < i)
    (hparent : parent i = pos) : i = 2 * pos + 1 ∨ i = 2 * pos + 2 := by
  unfold parent at hparent
  omega

/-! ## Swimming -/

theorem swim_spec (hlaw : cmp.Lawful) {heap : Array T} {pos : ℕ}
    (hsize : pos < heap.size) (hready : SwimReady cmp.NotLess heap pos) :
    ∃ heap', swim cmp heap pos = some heap' ∧
      IsHeap cmp.NotLess heap' ∧ heap'.Perm heap ∧
        ∀ i, ¬InSubtree i pos → heap'[i]? = heap[i]? := by
  have htrans : IsTrans T cmp.NotLess := ⟨fun _ _ _ => hlaw.notLess_trans⟩
  induction heap, pos using swim.induct cmp with
  | case1 heap pos hpos above entry hentry habove hlt ih =>
      have hswap := hready.swap hpos hsize
        (bounds_of_entries hentry habove (hlaw.notLess_of_lt hlt))
      have hparentSize : (pos - 1) / 2 < heap.size := by omega
      obtain ⟨heap', hrun, hheap, hperm, hframe⟩ :=
        ih (by rw [Array.size_swapIfInBounds]; omega) hswap
      refine ⟨heap', ?_, hheap, hperm.trans (perm_swapIfInBounds _ _ _), ?_⟩
      · rw [swim, if_pos hpos, habove, hentry]
        simpa only [hlt, if_true] using hrun
      · intro i hi
        have hself : i ≠ pos := by
          rintro rfl
          exact hi .refl
        have hparent : i ≠ (pos - 1) / 2 := by
          rintro rfl
          exact hi (.child hpos .refl)
        rw [hframe i (fun hpath => hi (.child hpos hpath)),
          getElem?_swapIfInBounds_eq hparentSize hsize,
          if_neg hparent, if_neg hself]
  | case2 heap pos hpos above entry hentry habove hlt =>
      have hstop : cmp.NotLess above entry := by
        simpa [Comparison.NotLess] using hlt
      refine ⟨heap, ?_, hready.isHeap fun _ =>
        bounds_of_entries habove hentry hstop, .refl heap, fun _ _ => rfl⟩
      rw [swim, if_pos hpos, habove, hentry]
      simp only [hlt, Bool.false_eq_true, if_false]
  | case3 heap pos hpos hread =>
      have hparentSize : (pos - 1) / 2 < heap.size := by omega
      exact (hread _ _ (Array.getElem?_eq_getElem hparentSize)
        (Array.getElem?_eq_getElem hsize)).elim
  | case4 heap pos hpos =>
      refine ⟨heap, ?_, hready.isHeap fun h => absurd h hpos,
        .refl heap, fun _ _ => rfl⟩
      rw [swim, if_neg hpos]

/-! ## Sinking -/

theorem largerChild_spec (hlaw : cmp.Lawful) {heap : Array T} {pos : ℕ}
    (hchild : 2 * pos + 1 < heap.size) :
    ∃ i, largerChild cmp heap pos = some i ∧
      0 < i ∧ parent i = pos ∧ i < heap.size ∧
        ∀ j, 0 < j → parent j = pos → j ≠ i →
          Bounds cmp.NotLess heap i j := by
  have hleft := Array.getElem?_eq_getElem hchild
  by_cases hboth : 2 * pos + 1 < heap.size - 1
  · have hrightSize : 2 * pos + 1 + 1 < heap.size := by omega
    have hright := Array.getElem?_eq_getElem hrightSize
    cases hlt : cmp.lt heap[2 * pos + 1] heap[2 * pos + 1 + 1] with
    | true =>
        refine ⟨2 * pos + 1 + 1, by simp [largerChild, hboth, hleft, hright, hlt],
          by omega, by unfold parent; omega, hrightSize, ?_⟩
        intro j hj hparent hne
        obtain rfl : j = 2 * pos + 1 := by
          have := eq_or_eq_of_parent_eq hj hparent
          omega
        exact bounds_of_entries hright hleft (hlaw.notLess_of_lt hlt)
    | false =>
        refine ⟨2 * pos + 1, by simp [largerChild, hboth, hleft, hright, hlt],
          by omega, by unfold parent; omega, hchild, ?_⟩
        intro j hj hparent hne
        obtain rfl : j = 2 * pos + 1 + 1 := by
          have := eq_or_eq_of_parent_eq hj hparent
          omega
        exact bounds_of_entries hleft hright hlt
  · -- the right child is missing
    refine ⟨2 * pos + 1, by simp [largerChild, hboth], by omega,
      by unfold parent; omega, hchild, ?_⟩
    intro j hj hparent hne
    have := eq_or_eq_of_parent_eq hj hparent
    exact .of_size_le (by omega)

theorem sink_spec (hlaw : cmp.Lawful) {heap : Array T} {start pos : ℕ}
    (hready : SinkReady cmp.NotLess heap start pos) :
    ∃ heap', sink cmp heap pos = some heap' ∧
      (∀ i, 0 < i → InSubtree start (parent i) →
        Bounds cmp.NotLess heap' (parent i) i) ∧
      heap'.Perm heap ∧
        ∀ i, ¬InSubtree start i → heap'[i]? = heap[i]? := by
  induction heap, pos using sink.induct cmp with
  | case1 heap pos hguard hnone =>
      obtain ⟨i, hsome, _⟩ := largerChild_spec hlaw hguard
      rw [hnone] at hsome
      contradiction
  | case2 heap pos hguard i hpick entry child hchild hentry hge =>
      obtain ⟨i', hpick', _, _, hsize, hlargest⟩ :=
        largerChild_spec hlaw hguard
      obtain rfl : i = i' := Option.some.inj (hpick.symm.trans hpick')
      have hstop : cmp.NotLess entry child := by
        simpa [Comparison.NotLess, hlaw.ge_eq] using hge
      have htrans : IsTrans T cmp.NotLess :=
        ⟨fun _ _ _ => hlaw.notLess_trans⟩
      have hpair := bounds_of_entries hentry hchild hstop
      refine ⟨heap, ?_, fun j hj hinside =>
        hready.ordered_of_stop (fun k hk hparent => ?_) hj hinside,
        .refl heap, fun _ _ => rfl⟩
      · rw [sink_of_child cmp hguard hpick hentry hchild, if_pos hge]
      · by_cases hself : k = i
        · exact hself ▸ hpair
        · exact hpair.trans (hlargest k hk hparent hself) hsize
  | case3 heap pos hguard i hpick entry child hchild hentry hge ih =>
      obtain ⟨i', hpick', hi, hparent, hsize, hlargest⟩ :=
        largerChild_spec hlaw hguard
      obtain rfl : i = i' := Option.some.inj (hpick.symm.trans hpick')
      have hlt : cmp.lt entry child = true := by
        simpa [hlaw.ge_eq] using hge
      have hswap := hready.swap hi hparent hsize
        (bounds_of_entries hchild hentry (hlaw.notLess_of_lt hlt)) hlargest
      have hposSize : pos < heap.size := by omega
      obtain ⟨heap', hrun, hordered, hperm, hframe⟩ := ih hswap
      refine ⟨heap', ?_, hordered,
        hperm.trans (perm_swapIfInBounds _ _ _), fun j hj => ?_⟩
      · rw [sink_of_child cmp hguard hpick hentry hchild, if_neg hge, hrun]
      · have hself : j ≠ pos := by
          rintro rfl
          exact hj hready.inside
        have hchildNe : j ≠ i := by
          rintro rfl
          exact hj hswap.inside
        rw [hframe j hj, getElem?_swapIfInBounds_eq hposSize hsize,
          if_neg hself, if_neg hchildNe]
  | case4 heap pos hguard i hpick hread =>
      obtain ⟨i', hpick', _, _, hsize, _⟩ := largerChild_spec hlaw hguard
      obtain rfl : i = i' := Option.some.inj (hpick.symm.trans hpick')
      have hposSize : pos < heap.size := by omega
      exact (hread _ _ (Array.getElem?_eq_getElem hposSize)
        (Array.getElem?_eq_getElem hsize)).elim
  | case5 heap pos hguard =>
      refine ⟨heap, ?_, fun j hj hinside =>
        hready.ordered_of_stop (fun k hk hparent => ?_) hj hinside,
        .refl heap, fun _ _ => rfl⟩
      · rw [sink, if_neg hguard]
      · have := eq_or_eq_of_parent_eq hk hparent
        exact .of_size_le (by omega)

end Miscellaneous.PriorityQueue
