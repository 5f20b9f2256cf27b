import Mathlib.MeasureTheory.Measure.Lebesgue.Basic
import Mathlib.MeasureTheory.Measure.Real
import Mathlib.Order.CompletePartialOrder
import Mathlib.Tactic

/-!
# Rectangles in the plane

A rectangle with sides along the axes is an interval of the plane.  The area
that two of them share is read off from the sides, and the share of it in what
they cover together is symmetric, at most one, zero for rectangles that have no
inner point in common, and one for equal rectangles only.
-/

namespace PlaneRectangles

open MeasureTheory Set

noncomputable section

def area (region : Set (ℝ × ℝ)) : ℝ := volume.real region

/-- The shared part of what two regions cover. -/
def overlapRatio (s t : Set (ℝ × ℝ)) : ℝ := area (s ∩ t) / area (s ∪ t)

/-- The length that two intervals share. -/
def overlap (a b c d : ℝ) : ℝ := max (min b d - max a c) 0

theorem overlap_nonneg (a b c d : ℝ) : 0 ≤ overlap a b c d := le_max_right _ _

theorem overlap_comm (a b c d : ℝ) : overlap a b c d = overlap c d a b := by
  rw [overlap, overlap, min_comm, max_comm a c]

theorem overlap_le {a b : ℝ} (hab : a ≤ b) (c d : ℝ) :
    overlap a b c d ≤ b - a := by
  apply max_le
  · have hmin : min b d ≤ b := min_le_left b d
    have hmax : a ≤ max a c := le_max_left a c
    linarith
  · linarith

theorem eq_of_overlap_eq {a b c d : ℝ} (hab : a < b)
    (hfirst : overlap a b c d = b - a) (hsecond : overlap a b c d = d - c) :
    a = c ∧ b = d := by
  have hmin : min b d ≤ b := min_le_left b d
  have hmin' : min b d ≤ d := min_le_right b d
  have hmax : a ≤ max a c := le_max_left a c
  have hmax' : c ≤ max a c := le_max_right a c
  have hpos : overlap a b c d = min b d - max a c := by
    rw [overlap]
    apply max_eq_left
    by_contra hneg
    rw [overlap, max_eq_right (le_of_not_ge hneg)] at hfirst
    linarith
  rw [hpos] at hfirst hsecond
  constructor
  · linarith
  · linarith

theorem area_Icc (a b : ℝ × ℝ) :
    area (Icc a b) = max (b.1 - a.1) 0 * max (b.2 - a.2) 0 := by
  rw [area, Icc_prod_eq, Measure.volume_eq_prod, measureReal_prod_prod,
    Real.volume_real_Icc, Real.volume_real_Icc]

theorem area_inter_Icc (a b c d : ℝ × ℝ) :
    area (Icc a b ∩ Icc c d) =
      overlap a.1 b.1 c.1 d.1 * overlap a.2 b.2 c.2 d.2 := by
  rw [Icc_inter_Icc, area_Icc]
  rfl

theorem area_union_Icc (a b c d : ℝ × ℝ) :
    area (Icc a b ∪ Icc c d) =
      area (Icc a b) + area (Icc c d) - area (Icc a b ∩ Icc c d) := by
  have hfinite (a b : ℝ × ℝ) : volume (Icc a b) ≠ ⊤ :=
    isCompact_Icc.measure_ne_top
  have hsum : area (Icc a b ∪ Icc c d) + area (Icc a b ∩ Icc c d) =
      area (Icc a b) + area (Icc c d) :=
    measureReal_union_add_inter measurableSet_Icc (hfinite a b) (hfinite c d)
  linarith

theorem disjoint_interior_Icc_iff (a b c d : ℝ × ℝ) :
    Disjoint (interior (Icc a b)) (interior (Icc c d)) ↔
      overlap a.1 b.1 c.1 d.1 = 0 ∨ overlap a.2 b.2 c.2 d.2 = 0 := by
  rw [Icc_prod_eq, Icc_prod_eq, interior_prod_eq, interior_prod_eq,
    interior_Icc, interior_Icc, interior_Icc, interior_Icc, disjoint_prod,
    Ioo_disjoint_Ioo, Ioo_disjoint_Ioo]
  simp only [overlap, max_eq_right_iff, sub_nonpos]

theorem div_sub_lt_div_sub {total x y : ℝ} (hx : 0 ≤ x) (hxy : x < y)
    (hy : y < total) : x / (total - x) < y / (total - y) := by
  rw [div_lt_div_iff₀ (by linarith) (by linarith)]
  have hmul : x * total < y * total :=
    mul_lt_mul_of_pos_right hxy (by linarith)
  calc
    x * (total - y) = x * total - x * y := by ring
    _ < y * total - x * y := by linarith
    _ = y * (total - x) := by ring

section Proper

variable {a b c d : ℝ × ℝ}

theorem area_Icc_of_lt (hfirst : a.1 < b.1) (hsecond : a.2 < b.2) :
    area (Icc a b) = (b.1 - a.1) * (b.2 - a.2) := by
  rw [area_Icc, max_eq_left (by linarith), max_eq_left (by linarith)]

theorem area_Icc_pos (hfirst : a.1 < b.1) (hsecond : a.2 < b.2) :
    0 < area (Icc a b) := by
  rw [area_Icc_of_lt hfirst hsecond]
  exact mul_pos (by linarith) (by linarith)

theorem area_inter_le (hfirst : a.1 < b.1) (hsecond : a.2 < b.2) :
    area (Icc a b ∩ Icc c d) ≤ area (Icc a b) := by
  rw [area_inter_Icc, area_Icc_of_lt hfirst hsecond]
  exact mul_le_mul (overlap_le hfirst.le _ _) (overlap_le hsecond.le _ _)
    (overlap_nonneg _ _ _ _) (by linarith)

theorem overlapRatio_comm (s t : Set (ℝ × ℝ)) :
    overlapRatio s t = overlapRatio t s := by
  rw [overlapRatio, overlapRatio, inter_comm, union_comm]

theorem overlapRatio_nonneg (s t : Set (ℝ × ℝ)) : 0 ≤ overlapRatio s t :=
  div_nonneg measureReal_nonneg measureReal_nonneg

theorem overlapRatio_le_one (a b c d : ℝ × ℝ) :
    overlapRatio (Icc a b) (Icc c d) ≤ 1 := by
  have hsubset : Icc a b ∩ Icc c d ⊆ Icc a b ∪ Icc c d :=
    inter_subset_left.trans subset_union_left
  have hfinite : volume (Icc a b ∪ Icc c d) ≠ ⊤ :=
    (isCompact_Icc.union isCompact_Icc).measure_ne_top
  exact div_le_one_of_le₀ (measureReal_mono hsubset hfinite) measureReal_nonneg

theorem area_union_pos (hfirst : a.1 < b.1) (hsecond : a.2 < b.2)
    (hfirst' : c.1 < d.1) (hsecond' : c.2 < d.2) :
    0 < area (Icc a b ∪ Icc c d) := by
  have hpos := area_Icc_pos hfirst' hsecond'
  have hle := @area_inter_le a b c d hfirst hsecond
  rw [area_union_Icc]
  linarith

theorem overlapRatio_eq_zero_iff (hfirst : a.1 < b.1) (hsecond : a.2 < b.2)
    (hfirst' : c.1 < d.1) (hsecond' : c.2 < d.2) :
    overlapRatio (Icc a b) (Icc c d) = 0 ↔
      Disjoint (interior (Icc a b)) (interior (Icc c d)) := by
  have hpos := area_union_pos hfirst hsecond hfirst' hsecond'
  rw [overlapRatio, div_eq_zero_iff, or_iff_left hpos.ne', area_inter_Icc,
    mul_eq_zero, disjoint_interior_Icc_iff]

/-- A part that is as large as the whole has both sides of the whole. -/
theorem sides_eq_of_area_eq {x y w h : ℝ} (hy : 0 ≤ y) (hxw : x ≤ w)
    (hyh : y ≤ h) (hw : 0 < w) (hh : 0 < h) (heq : x * y = w * h) :
    x = w ∧ y = h := by
  have hyeq : y = h := by
    apply le_antisymm hyh
    by_contra hlt
    rw [not_le] at hlt
    have hsmaller : x * y ≤ w * y := mul_le_mul_of_nonneg_right hxw hy
    have hless : w * y < w * h := mul_lt_mul_of_pos_left hlt hw
    linarith
  rw [hyeq] at heq
  exact ⟨mul_right_cancel₀ hh.ne' heq, hyeq⟩

theorem overlapRatio_eq_one_iff (hfirst : a.1 < b.1) (hsecond : a.2 < b.2)
    (hfirst' : c.1 < d.1) (hsecond' : c.2 < d.2) :
    overlapRatio (Icc a b) (Icc c d) = 1 ↔ a = c ∧ b = d := by
  have hpos := area_union_pos hfirst hsecond hfirst' hsecond'
  rw [overlapRatio, div_eq_one_iff_eq hpos.ne']
  constructor
  · intro hsame
    have hle := @area_inter_le a b c d hfirst hsecond
    have hle' := @area_inter_le c d a b hfirst' hsecond'
    rw [inter_comm] at hle'
    rw [area_union_Icc] at hsame
    have harea : area (Icc a b ∩ Icc c d) = area (Icc a b) := by linarith
    have harea' : area (Icc a b ∩ Icc c d) = area (Icc c d) := by linarith
    rw [area_inter_Icc, area_Icc_of_lt hfirst hsecond] at harea
    rw [area_inter_Icc, area_Icc_of_lt hfirst' hsecond'] at harea'
    have hsides := sides_eq_of_area_eq (overlap_nonneg a.2 b.2 c.2 d.2)
      (overlap_le hfirst.le c.1 d.1) (overlap_le hsecond.le c.2 d.2)
      (sub_pos.mpr hfirst) (sub_pos.mpr hsecond) harea
    have hle1 : overlap a.1 b.1 c.1 d.1 ≤ d.1 - c.1 :=
      overlap_comm a.1 b.1 c.1 d.1 ▸ overlap_le hfirst'.le a.1 b.1
    have hle2 : overlap a.2 b.2 c.2 d.2 ≤ d.2 - c.2 :=
      overlap_comm a.2 b.2 c.2 d.2 ▸ overlap_le hsecond'.le a.2 b.2
    have hsides' := sides_eq_of_area_eq (overlap_nonneg a.2 b.2 c.2 d.2)
      hle1 hle2 (sub_pos.mpr hfirst') (sub_pos.mpr hsecond') harea'
    have hxs := eq_of_overlap_eq hfirst hsides.1 hsides'.1
    have hys := eq_of_overlap_eq hsecond hsides.2 hsides'.2
    exact ⟨Prod.ext hxs.1 hys.1, Prod.ext hxs.2 hys.2⟩
  · rintro ⟨hac, hbd⟩
    rw [hac, hbd, inter_self, union_self]

end Proper

end

end PlaneRectangles
