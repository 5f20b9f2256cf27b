import Mathlib.Algebra.BigOperators.Ring.Finset
import Mathlib.Algebra.Order.BigOperators.Group.Finset
import Mathlib.Algebra.Order.Floor.Semiring
import Mathlib.Tactic

/-!
# Weighted sums

Sums with weights that are not negative and have the sum one.  Such a sum lies
within the bounds of its terms, and rounding every term down takes less than one
off it.  A loop that skips some of its turns computes such a sum with zeros, and
a loop one of whose turns fails has no result.
-/

namespace WeightedSums

variable {K : Type*} [Field K] [LinearOrder K] [IsStrictOrderedRing K]

/-- The weights `w t` for `t < size`. -/
structure IsKernel (w : ℕ → K) (size : ℕ) : Prop where
  nonneg : ∀ t < size, 0 ≤ w t
  sum_eq : ∑ t ∈ Finset.range size, w t = 1

section Sums

variable {w v u : ℕ → K} {size : ℕ} (hw : IsKernel w size)

include hw

theorem IsKernel.sum_nonneg (hv : ∀ t < size, 0 ≤ v t) :
    0 ≤ ∑ t ∈ Finset.range size, v t * w t := by
  apply Finset.sum_nonneg
  intro t ht
  rw [Finset.mem_range] at ht
  exact mul_nonneg (hv t ht) (hw.nonneg t ht)

theorem IsKernel.sum_le {bound : K} (hv : ∀ t < size, v t ≤ bound) :
    ∑ t ∈ Finset.range size, v t * w t ≤ bound := by
  calc
    ∑ t ∈ Finset.range size, v t * w t ≤
        ∑ t ∈ Finset.range size, bound * w t := by
      apply Finset.sum_le_sum
      intro t ht
      rw [Finset.mem_range] at ht
      exact mul_le_mul_of_nonneg_right (hv t ht) (hw.nonneg t ht)
    _ = bound := by rw [← Finset.mul_sum, hw.sum_eq, mul_one]

theorem IsKernel.exists_pos : ∃ t < size, 0 < w t := by
  by_contra hnone
  push Not at hnone
  have hzero : ∑ t ∈ Finset.range size, w t = 0 := by
    apply Finset.sum_eq_zero
    intro t ht
    rw [Finset.mem_range] at ht
    exact le_antisymm (hnone t ht) (hw.nonneg t ht)
  rw [hw.sum_eq] at hzero
  exact one_ne_zero hzero

theorem IsKernel.sum_lt_one (hv : ∀ t < size, v t < 1) :
    ∑ t ∈ Finset.range size, v t * w t < 1 := by
  rcases hw.exists_pos with ⟨t, ht, hpos⟩
  calc
    ∑ t ∈ Finset.range size, v t * w t <
        ∑ t ∈ Finset.range size, 1 * w t := by
      apply Finset.sum_lt_sum
      · intro s hs
        rw [Finset.mem_range] at hs
        exact mul_le_mul_of_nonneg_right (hv s hs).le (hw.nonneg s hs)
      · exact ⟨t, Finset.mem_range.mpr ht,
          mul_lt_mul_of_pos_right (hv t ht) hpos⟩
    _ = 1 := by rw [← Finset.mul_sum, hw.sum_eq, mul_one]

/-- Terms that are less than one below others. -/
theorem IsKernel.sum_sub (hle : ∀ t < size, u t ≤ v t)
    (hlt : ∀ t < size, v t - u t < 1) :
    ∑ t ∈ Finset.range size, u t * w t ≤
        ∑ t ∈ Finset.range size, v t * w t ∧
      ∑ t ∈ Finset.range size, v t * w t -
        ∑ t ∈ Finset.range size, u t * w t < 1 := by
  have hdifference : ∑ t ∈ Finset.range size, v t * w t -
      ∑ t ∈ Finset.range size, u t * w t =
        ∑ t ∈ Finset.range size, (v t - u t) * w t := by
    rw [← Finset.sum_sub_distrib]
    simp only [sub_mul]
  rw [← sub_nonneg, hdifference]
  exact ⟨hw.sum_nonneg fun t ht => sub_nonneg.mpr (hle t ht),
    hw.sum_lt_one hlt⟩

end Sums

/-- Dividing by the sum makes weights of any positive numbers. -/
theorem isKernel_div_sum {w : ℕ → K} {size : ℕ} (hsize : 0 < size)
    (hw : ∀ t < size, 0 < w t) :
    IsKernel (fun t => w t / ∑ t ∈ Finset.range size, w t) size := by
  have hpos : 0 < ∑ t ∈ Finset.range size, w t := by
    apply Finset.sum_pos
    · intro t ht
      exact hw t (Finset.mem_range.mp ht)
    · exact ⟨0, Finset.mem_range.mpr hsize⟩
  constructor
  · intro t ht
    exact (div_pos (hw t ht) hpos).le
  · rw [← Finset.sum_div, div_self hpos.ne']

section Loops

variable {M : Type*} [AddCommMonoid M]

theorem foldl_add_range (f : ℕ → M) (size : ℕ) :
    (List.range size).foldl (fun sum t => sum + f t) 0 =
      ∑ t ∈ Finset.range size, f t := by
  induction size with
  | zero => rfl
  | succ size ih =>
      rw [List.range_succ, List.foldl_append, ih, Finset.sum_range_succ]
      rfl

/-- A loop that skips the turns where `skips` holds. -/
theorem foldl_skip_range (skips : ℕ → Prop) [DecidablePred skips]
    (f : ℕ → M) (size : ℕ) :
    (List.range size).foldl
        (fun sum t => if skips t then sum else sum + f t) 0 =
      ∑ t ∈ Finset.range size, if skips t then 0 else f t := by
  rw [← foldl_add_range]
  congr 1
  funext sum t
  split_ifs
  · rw [add_zero]
  · rfl

end Loops

/-! ## Loops whose turns can fail -/

section FallibleLoops

variable {α β : Type*} {f : β → α → Option β} {list : List α}

theorem foldlM_eq_some_foldl {g : β → α → β} {P : β → Prop}
    (hf : ∀ x ∈ list, ∀ b, P b → f b x = some (g b x))
    (hg : ∀ x ∈ list, ∀ b, P b → P (g b x)) {b : β} (hb : P b) :
    list.foldlM f b = some (list.foldl g b) := by
  induction list generalizing b with
  | nil => rfl
  | cons x list ih =>
      have hfirst := hf x (by simp) b hb
      have hrest := ih (fun y hy => hf y (by simp [hy]))
        (fun y hy => hg y (by simp [hy])) (hg x (by simp) b hb)
      rw [List.foldlM_cons, hfirst]
      exact hrest

theorem mapM_eq_some_map {e : α → Option β} {g : α → β}
    (he : ∀ x ∈ list, e x = some (g x)) :
    list.mapM e = some (list.map g) := by
  induction list with
  | nil => rfl
  | cons x list ih =>
      have hrest := ih fun y hy => he y (by simp [hy])
      rw [List.mapM_cons, he x (by simp), hrest]
      rfl

/-- One turn that always fails is enough for the whole loop. -/
theorem foldlM_eq_none_of_mem {x : α} (hx : x ∈ list)
    (hf : ∀ b, f b x = none) (b : β) : list.foldlM f b = none := by
  induction list generalizing b with
  | nil => cases hx
  | cons y list ih =>
      rw [List.foldlM_cons]
      rcases List.mem_cons.mp hx with rfl | hx
      · rw [hf]
        rfl
      · cases f b y with
        | none => rfl
        | some next => exact ih hx next

theorem foldlM_flatMap {γ : Type*} (outer : List γ) (inner : γ → List α)
    (b : β) :
    (outer.flatMap inner).foldlM f b =
      outer.foldlM (fun b x => (inner x).foldlM f b) b := by
  induction outer generalizing b with
  | nil => rfl
  | cons x outer ih =>
      rw [List.flatMap_cons, List.foldlM_append, List.foldlM_cons]
      exact congrArg _ (funext ih)

end FallibleLoops

end WeightedSums
