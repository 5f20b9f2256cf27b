import Miscellaneous.PlaneRectangles
import Mathlib.Tactic

/-!
# Overlap of rectangles

`iou` and `isOverlap` of `iou.cpp`, over exact coordinates.  Both take the left
side of the shared part from the first rectangle alone.  Where the second one
starts further right, the part is too wide, so the ratio is too large, and a
rectangle to the right of the first one is taken to overlap it.
-/

namespace Miscellaneous.Iou

open PlaneRectangles Set

structure RectVertex where
  tl : ℚ × ℚ
  br : ℚ × ℚ
  deriving DecidableEq

def RectVertex.area (rect : RectVertex) : ℚ :=
  (rect.br.1 - rect.tl.1) * (rect.br.2 - rect.tl.2)

def iou (rect1 rect2 : RectVertex) : ℚ :=
  let w := min rect1.br.1 rect2.br.1 - max rect1.tl.1 rect1.tl.1
  let h := min rect1.br.2 rect2.br.2 - max rect1.tl.2 rect2.tl.2
  if w ≤ 0 ∨ h ≤ 0 then 0
  else w * h / (rect1.area + rect2.area - w * h)

def isOverlap (rect1 rect2 : RectVertex) : Bool :=
  let w := min rect1.br.1 rect2.br.1 - max rect1.tl.1 rect1.tl.1
  let h := min rect1.br.2 rect2.br.2 - max rect1.tl.2 rect2.tl.2
  !(w ≤ 0 || h ≤ 0)

/-- The top left vertex is strictly less than the bottom right one. -/
structure RectVertex.Proper (rect : RectVertex) : Prop where
  first : rect.tl.1 < rect.br.1
  second : rect.tl.2 < rect.br.2

def RectVertex.Inside (rect : RectVertex) (point : ℚ × ℚ) : Prop :=
  (rect.tl.1 < point.1 ∧ point.1 < rect.br.1) ∧
    rect.tl.2 < point.2 ∧ point.2 < rect.br.2

/-- One rectangle ends where the other one begins, in the second coordinate. -/
def Apart (rect1 rect2 : RectVertex) : Prop :=
  rect1.br.2 ≤ rect2.tl.2 ∨ rect2.br.2 ≤ rect1.tl.2

variable {rect1 rect2 : RectVertex}

theorem apart_comm : Apart rect1 rect2 ↔ Apart rect2 rect1 := or_comm

/-! ## Overlap -/

theorem min_sub_max_nonpos_iff {a b c d : ℚ} (hab : a < b) (hcd : c < d) :
    min b d - max a c ≤ 0 ↔ b ≤ c ∨ d ≤ a := by
  rw [sub_nonpos, min_le_iff, le_max_iff, le_max_iff]
  constructor
  · rintro ((h | h) | h | h)
    · exact absurd h (not_le_of_gt hab)
    · exact Or.inl h
    · exact Or.inr h
    · exact absurd h (not_le_of_gt hcd)
  · rintro (h | h)
    · exact Or.inl (Or.inr h)
    · exact Or.inr (Or.inl h)

/-- What the code computes. -/
theorem isOverlap_eq_true_iff (hfirst : rect1.Proper) (hsecond : rect2.Proper) :
    isOverlap rect1 rect2 = true ↔
      rect1.tl.1 < rect2.br.1 ∧ ¬Apart rect1 rect2 := by
  have hwidth : min rect1.br.1 rect2.br.1 - max rect1.tl.1 rect1.tl.1 ≤ 0 ↔
      rect2.br.1 ≤ rect1.tl.1 := by
    rw [max_self, sub_nonpos, min_le_iff,
      or_iff_right (not_le_of_gt hfirst.first)]
  simp only [isOverlap, hwidth,
    min_sub_max_nonpos_iff hfirst.second hsecond.second, Apart]
  simp [not_or]

theorem exists_inside_iff (hfirst : rect1.Proper) (hsecond : rect2.Proper) :
    (∃ point, rect1.Inside point ∧ rect2.Inside point) ↔
      (rect1.tl.1 < rect2.br.1 ∧ rect2.tl.1 < rect1.br.1) ∧
        ¬Apart rect1 rect2 := by
  rw [Apart, not_or, not_le, not_le]
  constructor
  · rintro ⟨point, hpoint, hpoint'⟩
    exact ⟨⟨hpoint.1.1.trans hpoint'.1.2, hpoint'.1.1.trans hpoint.1.2⟩,
      hpoint'.2.1.trans hpoint.2.2, hpoint.2.1.trans hpoint'.2.2⟩
  · rintro ⟨⟨h12, h21⟩, h21', h12'⟩
    have hx : max rect1.tl.1 rect2.tl.1 < min rect1.br.1 rect2.br.1 :=
      max_lt (lt_min hfirst.first h12) (lt_min h21 hsecond.first)
    have hy : max rect1.tl.2 rect2.tl.2 < min rect1.br.2 rect2.br.2 :=
      max_lt (lt_min hfirst.second h12') (lt_min h21' hsecond.second)
    rcases exists_between hx with ⟨x, hxlow, hxhigh⟩
    rcases exists_between hy with ⟨y, hylow, hyhigh⟩
    rw [max_lt_iff] at hxlow hylow
    rw [lt_min_iff] at hxhigh hyhigh
    exact ⟨(x, y), ⟨⟨hxlow.1, hxhigh.1⟩, hylow.1, hyhigh.1⟩,
      ⟨hxlow.2, hxhigh.2⟩, hylow.2, hyhigh.2⟩

/-- The test finds the common points, and so does the test with the rectangles
exchanged. -/
structure FindsOverlap (rect1 rect2 : RectVertex) : Prop where
  common : isOverlap rect1 rect2 = true ↔
    ∃ point, rect1.Inside point ∧ rect2.Inside point
  symm : isOverlap rect1 rect2 = isOverlap rect2 rect1

theorem isOverlap_common_iff (hfirst : rect1.Proper)
    (hsecond : rect2.Proper) :
    (isOverlap rect1 rect2 = true ↔
        ∃ point, rect1.Inside point ∧ rect2.Inside point) ↔
      rect2.tl.1 < rect1.br.1 ∨ Apart rect1 rect2 := by
  rw [isOverlap_eq_true_iff hfirst hsecond, exists_inside_iff hfirst hsecond]
  by_cases hapart : Apart rect1 rect2
  · simp [hapart]
  · simp only [hapart, not_false_eq_true, and_true, or_false]
    constructor
    · intro hiff
      by_contra hright
      rw [not_lt] at hright
      have hleft : rect1.tl.1 < rect2.br.1 :=
        (hfirst.first.trans_le hright).trans hsecond.first
      exact absurd (hiff.mp hleft).2 (not_lt_of_ge hright)
    · intro hleft
      exact (and_iff_left hleft).symm

/-- The test is right exactly if the second rectangle begins before the first one
ends, or they are apart in the other coordinate; it is symmetric besides
exactly if the same holds with the rectangles exchanged. -/
theorem isOverlap_correct_iff (hfirst : rect1.Proper) (hsecond : rect2.Proper) :
    ((isOverlap rect1 rect2 = true ↔
          ∃ point, rect1.Inside point ∧ rect2.Inside point) ↔
        rect2.tl.1 < rect1.br.1 ∨ Apart rect1 rect2) ∧
      (FindsOverlap rect1 rect2 ↔
        (rect2.tl.1 < rect1.br.1 ∧ rect1.tl.1 < rect2.br.1) ∨
          Apart rect1 rect2) := by
  have hcommon := isOverlap_common_iff hfirst hsecond
  refine ⟨hcommon, ?_⟩
  have hcode := isOverlap_eq_true_iff hfirst hsecond
  have hcode' := isOverlap_eq_true_iff hsecond hfirst
  rw [apart_comm] at hcode'
  constructor
  · rintro ⟨hright, hsymm⟩
    rw [hcommon] at hright
    rw [Bool.eq_iff_iff, hcode, hcode'] at hsymm
    by_cases hapart : Apart rect1 rect2
    · exact Or.inr hapart
    · have hlt := hright.resolve_right hapart
      exact Or.inl ⟨hlt, (hsymm.mpr ⟨hlt, hapart⟩).1⟩
  · intro hcases
    constructor
    · rw [hcommon]
      exact hcases.imp_left And.left
    · rw [Bool.eq_iff_iff, hcode, hcode']
      rcases hcases with ⟨hlt, hlt'⟩ | hapart
      · simp [hlt, hlt']
      · simp [hapart]

def mainRect1 : RectVertex := ⟨(1, 1), (2, 2)⟩

def mainRect2 : RectVertex := ⟨(3 / 2, 3 / 2), (5 / 2, 5 / 2)⟩

theorem mainRect1_proper : mainRect1.Proper := ⟨by decide, by decide⟩

theorem mainRect2_proper : mainRect2.Proper :=
  ⟨by norm_num [mainRect2], by norm_num [mainRect2]⟩

theorem isOverlap_correct_iff_main : FindsOverlap mainRect1 mainRect2 := by
  apply (isOverlap_correct_iff mainRect1_proper mainRect2_proper).2.mpr
  left
  norm_num [mainRect1, mainRect2]

theorem isOverlap_correct_fails :
    ¬∀ rect1 rect2 : RectVertex, rect1.Proper → rect2.Proper →
      FindsOverlap rect1 rect2 := by
  intro hall
  have hfinds := hall ⟨(0, 0), (1, 1)⟩ ⟨(2, 0), (3, 1)⟩
    ⟨by decide, by decide⟩ ⟨by decide, by decide⟩
  have hwrong : isOverlap ⟨(0, 0), (1, 1)⟩ ⟨(2, 0), (3, 1)⟩ = true := by
    norm_num [isOverlap]
  rcases hfinds.common.mp hwrong with ⟨point, hpoint, hpoint'⟩
  have hlt : point.1 < 1 := hpoint.1.2
  have hgt : 2 < point.1 := hpoint'.1.1
  linarith

/-! ## Ratio of areas -/

def RectVertex.region (rect : RectVertex) : Set (ℝ × ℝ) :=
  Icc ((rect.tl.1 : ℝ), (rect.tl.2 : ℝ)) ((rect.br.1 : ℝ), (rect.br.2 : ℝ))

/-- The area that the code takes for the shared one. -/
def shared (rect1 rect2 : RectVertex) : ℚ :=
  max (min rect1.br.1 rect2.br.1 - rect1.tl.1) 0 *
    max (min rect1.br.2 rect2.br.2 - max rect1.tl.2 rect2.tl.2) 0

theorem iou_eq (rect1 rect2 : RectVertex) :
    iou rect1 rect2 = shared rect1 rect2 /
      (rect1.area + rect2.area - shared rect1 rect2) := by
  simp only [iou, shared, max_self]
  split_ifs with hempty
  · rcases hempty with hempty | hempty
    · rw [max_eq_right hempty, zero_mul, zero_div]
    · rw [max_eq_right hempty, mul_zero, zero_div]
  · rw [not_or, not_le, not_le] at hempty
    rw [max_eq_left hempty.1.le, max_eq_left hempty.2.le]

theorem RectVertex.Proper.area_region {rect : RectVertex} (hrect : rect.Proper) :
    PlaneRectangles.area rect.region = rect.area := by
  rw [RectVertex.region,
    area_Icc_of_lt (Rat.cast_lt.mpr hrect.first) (Rat.cast_lt.mpr hrect.second)]
  push_cast [RectVertex.area]
  rfl

theorem overlapRatio_region (hfirst : rect1.Proper) (hsecond : rect2.Proper) :
    overlapRatio rect1.region rect2.region =
      PlaneRectangles.area (rect1.region ∩ rect2.region) /
        (rect1.area + rect2.area -
          PlaneRectangles.area (rect1.region ∩ rect2.region)) := by
  rw [← hfirst.area_region, ← hsecond.area_region, overlapRatio,
    RectVertex.region, RectVertex.region, area_union_Icc]

/-- The area that the rectangles share. -/
def common (rect1 rect2 : RectVertex) : ℚ :=
  max (min rect1.br.1 rect2.br.1 - max rect1.tl.1 rect2.tl.1) 0 *
    max (min rect1.br.2 rect2.br.2 - max rect1.tl.2 rect2.tl.2) 0

theorem area_inter_region (rect1 rect2 : RectVertex) :
    PlaneRectangles.area (rect1.region ∩ rect2.region) =
      common rect1 rect2 := by
  rw [RectVertex.region, RectVertex.region, area_inter_Icc]
  push_cast [common, overlap]
  rfl

theorem shared_eq_common (hfirst : rect1.Proper) (hsecond : rect2.Proper)
    (hcases : rect2.tl.1 ≤ rect1.tl.1 ∨ Apart rect1 rect2) :
    shared rect1 rect2 = common rect1 rect2 := by
  rcases hcases with hle | hapart
  · rw [shared, common, max_eq_left hle]
  · have hheight := (min_sub_max_nonpos_iff hfirst.second hsecond.second).mpr
      hapart
    rw [shared, common, max_eq_right hheight, mul_zero, mul_zero]

/-- Where the second rectangle starts further right, the code takes too much. -/
theorem common_lt_shared (hfirst : rect1.Proper) (hsecond : rect2.Proper)
    (hlt : rect1.tl.1 < rect2.tl.1) (hapart : ¬Apart rect1 rect2) :
    common rect1 rect2 < shared rect1 rect2 := by
  have hheight : 0 < min rect1.br.2 rect2.br.2 - max rect1.tl.2 rect2.tl.2 := by
    rw [← not_le, min_sub_max_nonpos_iff hfirst.second hsecond.second]
    exact hapart
  have hwidth : 0 < min rect1.br.1 rect2.br.1 - rect1.tl.1 :=
    sub_pos.mpr (lt_min hfirst.first (hlt.trans hsecond.first))
  rw [shared, common, max_eq_right hlt.le, max_eq_left hheight.le,
    max_eq_left hwidth.le]
  apply mul_lt_mul_of_pos_right _ hheight
  apply max_lt _ hwidth
  linarith

theorem shared_le_area (hfirst : rect1.Proper) :
    shared rect1 rect2 ≤ rect1.area := by
  have hwidth : 0 ≤ rect1.br.1 - rect1.tl.1 := (sub_pos.mpr hfirst.first).le
  have hheight : 0 ≤ rect1.br.2 - rect1.tl.2 := (sub_pos.mpr hfirst.second).le
  rw [shared, RectVertex.area]
  apply mul_le_mul
  · exact max_le (sub_le_sub_right (min_le_left _ _) _) hwidth
  · exact max_le (sub_le_sub (min_le_left _ _) (le_max_left _ _)) hheight
  · exact le_max_right _ _
  · exact hwidth

theorem RectVertex.Proper.area_pos {rect : RectVertex} (hrect : rect.Proper) :
    0 < rect.area :=
  mul_pos (sub_pos.mpr hrect.first) (sub_pos.mpr hrect.second)

theorem common_nonneg (rect1 rect2 : RectVertex) : 0 ≤ common rect1 rect2 :=
  mul_nonneg (le_max_right _ _) (le_max_right _ _)

/-- The result is the share of the common area in the covered area. -/
def IsRatio (rect1 rect2 : RectVertex) : Prop :=
  (iou rect1 rect2 : ℝ) = overlapRatio rect1.region rect2.region

theorem overlapRatio_lt_iou (hfirst : rect1.Proper) (hsecond : rect2.Proper)
    (hlt : rect1.tl.1 < rect2.tl.1) (hapart : ¬Apart rect1 rect2) :
    overlapRatio rect1.region rect2.region < iou rect1 rect2 := by
  have hcommon := common_lt_shared hfirst hsecond hlt hapart
  have hshared : shared rect1 rect2 < rect1.area + rect2.area := by
    have hle := @shared_le_area rect1 rect2 hfirst
    have hpos := hsecond.area_pos
    linarith
  rw [overlapRatio_region hfirst hsecond, area_inter_region, iou_eq]
  push_cast
  apply div_sub_lt_div_sub
  · exact_mod_cast common_nonneg rect1 rect2
  · exact_mod_cast hcommon
  · exact_mod_cast hshared

theorem isRatio_iff (hfirst : rect1.Proper) (hsecond : rect2.Proper) :
    IsRatio rect1 rect2 ↔
      rect2.tl.1 ≤ rect1.tl.1 ∨ Apart rect1 rect2 := by
  constructor
  · intro hratio
    by_contra hcases
    rw [not_or, not_le] at hcases
    exact (overlapRatio_lt_iou hfirst hsecond hcases.1 hcases.2).ne hratio.symm
  · intro hcases
    rw [IsRatio, overlapRatio_region hfirst hsecond, area_inter_region, iou_eq,
      shared_eq_common hfirst hsecond hcases]
    push_cast
    rfl

/-- The ratio, and what follows from being the ratio. -/
structure MeasuresOverlap (rect1 rect2 : RectVertex) : Prop where
  ratio : IsRatio rect1 rect2
  symm : iou rect1 rect2 = iou rect2 rect1
  nonneg : 0 ≤ iou rect1 rect2
  le_one : iou rect1 rect2 ≤ 1
  eq_zero_iff : iou rect1 rect2 = 0 ↔
    Disjoint (interior rect1.region) (interior rect2.region)
  eq_one_iff : iou rect1 rect2 = 1 ↔ rect1 = rect2

theorem vertices_eq_iff {rect1 rect2 : RectVertex} :
    (((rect1.tl.1 : ℝ), (rect1.tl.2 : ℝ)) =
        ((rect2.tl.1 : ℝ), (rect2.tl.2 : ℝ)) ∧
      ((rect1.br.1 : ℝ), (rect1.br.2 : ℝ)) =
        ((rect2.br.1 : ℝ), (rect2.br.2 : ℝ))) ↔ rect1 = rect2 := by
  rcases rect1 with ⟨⟨a, b⟩, c, d⟩
  rcases rect2 with ⟨⟨a', b'⟩, c', d'⟩
  simp

theorem IsRatio.measuresOverlap (hfirst : rect1.Proper) (hsecond : rect2.Proper)
    (hratio : IsRatio rect1 rect2) (hratio' : IsRatio rect2 rect1) :
    MeasuresOverlap rect1 rect2 := by
  have hx := Rat.cast_lt (K := ℝ).mpr hfirst.first
  have hy := Rat.cast_lt (K := ℝ).mpr hfirst.second
  have hx' := Rat.cast_lt (K := ℝ).mpr hsecond.first
  have hy' := Rat.cast_lt (K := ℝ).mpr hsecond.second
  constructor
  · exact hratio
  · have hsame : (iou rect1 rect2 : ℝ) = iou rect2 rect1 := by
      rw [hratio, hratio', overlapRatio_comm]
    exact_mod_cast hsame
  · have hnonneg : (0 : ℝ) ≤ iou rect1 rect2 := by
      rw [hratio]
      exact overlapRatio_nonneg _ _
    exact_mod_cast hnonneg
  · have hle : (iou rect1 rect2 : ℝ) ≤ 1 := by
      rw [hratio]
      exact overlapRatio_le_one _ _ _ _
    exact_mod_cast hle
  · have hzero : (iou rect1 rect2 : ℝ) = 0 ↔
        Disjoint (interior rect1.region) (interior rect2.region) := by
      rw [hratio]
      exact overlapRatio_eq_zero_iff hx hy hx' hy'
    exact_mod_cast hzero
  · have hone : (iou rect1 rect2 : ℝ) = 1 ↔ rect1 = rect2 := by
      rw [hratio, ← vertices_eq_iff]
      exact overlapRatio_eq_one_iff hx hy hx' hy'
    exact_mod_cast hone

/-- The result is the ratio exactly if the second rectangle does not start
further right, or they are apart in the other coordinate; it has all properties
of the ratio exactly if the same holds with the rectangles exchanged. -/
theorem iou_correct_iff (hfirst : rect1.Proper) (hsecond : rect2.Proper) :
    (IsRatio rect1 rect2 ↔
        rect2.tl.1 ≤ rect1.tl.1 ∨ Apart rect1 rect2) ∧
      (MeasuresOverlap rect1 rect2 ↔
        rect1.tl.1 = rect2.tl.1 ∨ Apart rect1 rect2) := by
  have hratio := isRatio_iff hfirst hsecond
  have hratio' := isRatio_iff hsecond hfirst
  rw [apart_comm] at hratio'
  refine ⟨hratio, ?_⟩
  constructor
  · intro hmeasures
    rcases hratio.mp hmeasures.ratio with hle | hapart
    · -- the exchanged call gives the same result, so it is the ratio too
      have hother : IsRatio rect2 rect1 := by
        rw [IsRatio, overlapRatio_comm, ← hmeasures.symm]
        exact hmeasures.ratio
      rcases hratio'.mp hother with hle' | hapart
      · exact Or.inl (le_antisymm hle' hle)
      · exact Or.inr hapart
    · exact Or.inr hapart
  · intro hcases
    apply IsRatio.measuresOverlap hfirst hsecond
    · rw [hratio]
      exact hcases.imp_left fun hsame => hsame.ge
    · rw [hratio']
      exact hcases.imp_left fun hsame => hsame.le

theorem iou_correct_iff_main : IsRatio mainRect2 mainRect1 := by
  apply (iou_correct_iff mainRect2_proper mainRect1_proper).1.mpr
  left
  norm_num [mainRect1, mainRect2]

/-- The first two rectangles of `main`. -/
theorem iou_correct_fails :
    ¬∀ rect1 rect2 : RectVertex, rect1.Proper → rect2.Proper →
      MeasuresOverlap rect1 rect2 := by
  intro hall
  have hmeasures := hall mainRect1 mainRect2 mainRect1_proper mainRect2_proper
  have hcases := (isRatio_iff mainRect1_proper mainRect2_proper).mp
    hmeasures.ratio
  norm_num [mainRect1, mainRect2, Apart] at hcases

/-! ## The division -/

/-- `w` and `h`, which both functions compute. -/
def sharedWidth (rect1 rect2 : RectVertex) : ℚ :=
  min rect1.br.1 rect2.br.1 - max rect1.tl.1 rect1.tl.1

def sharedHeight (rect1 rect2 : RectVertex) : ℚ :=
  min rect1.br.2 rect2.br.2 - max rect1.tl.2 rect2.tl.2

def ReachesDivision (rect1 rect2 : RectVertex) : Prop :=
  ¬(sharedWidth rect1 rect2 ≤ 0 ∨ sharedHeight rect1 rect2 ≤ 0)

def divisor (rect1 rect2 : RectVertex) : ℚ :=
  rect1.area + rect2.area - sharedWidth rect1 rect2 * sharedHeight rect1 rect2

theorem iou_of_reachesDivision (hreaches : ReachesDivision rect1 rect2) :
    iou rect1 rect2 = sharedWidth rect1 rect2 * sharedHeight rect1 rect2 /
      divisor rect1 rect2 := if_neg hreaches

theorem iou_of_not_reachesDivision (hreaches : ¬ReachesDivision rect1 rect2) :
    iou rect1 rect2 = 0 := if_pos (not_not.mp hreaches)

theorem isOverlap_eq_true_iff_reachesDivision :
    isOverlap rect1 rect2 = true ↔ ReachesDivision rect1 rect2 := by
  simp [isOverlap, ReachesDivision, sharedWidth, sharedHeight]

theorem shared_eq_max (rect1 rect2 : RectVertex) :
    shared rect1 rect2 =
      max (sharedWidth rect1 rect2) 0 * max (sharedHeight rect1 rect2) 0 := by
  rw [shared, sharedWidth, sharedHeight, max_self]

theorem divisor_pos (hfirst : rect1.Proper) (hsecond : rect2.Proper)
    (hreaches : ReachesDivision rect1 rect2) : 0 < divisor rect1 rect2 := by
  have hpositive := not_or.mp hreaches
  have hshared : shared rect1 rect2 =
      sharedWidth rect1 rect2 * sharedHeight rect1 rect2 := by
    rw [shared_eq_max, max_eq_left (not_le.mp hpositive.1).le,
      max_eq_left (not_le.mp hpositive.2).le]
  have hle := @shared_le_area rect1 rect2 hfirst
  have hpos := hsecond.area_pos
  rw [divisor, ← hshared]
  linarith

theorem iou_pos_iff_reachesDivision (hfirst : rect1.Proper)
    (hsecond : rect2.Proper) :
    0 < iou rect1 rect2 ↔ ReachesDivision rect1 rect2 := by
  constructor
  · intro hpos
    by_contra hreaches
    rw [iou_of_not_reachesDivision hreaches] at hpos
    exact lt_irrefl 0 hpos
  · intro hreaches
    have hpositive := not_or.mp hreaches
    rw [iou_of_reachesDivision hreaches]
    exact div_pos
      (mul_pos (not_le.mp hpositive.1) (not_le.mp hpositive.2))
      (divisor_pos hfirst hsecond hreaches)

/-- What is divided by is positive, and the two tests agree. -/
theorem iou_pos_iff (hfirst : rect1.Proper) (hsecond : rect2.Proper) :
    (ReachesDivision rect1 rect2 →
        iou rect1 rect2 =
            sharedWidth rect1 rect2 * sharedHeight rect1 rect2 /
              divisor rect1 rect2 ∧
          0 < divisor rect1 rect2) ∧
      (0 < iou rect1 rect2 ↔ isOverlap rect1 rect2 = true) :=
  ⟨fun hreaches => ⟨iou_of_reachesDivision hreaches,
      divisor_pos hfirst hsecond hreaches⟩,
    (iou_pos_iff_reachesDivision hfirst hsecond).trans
      isOverlap_eq_true_iff_reachesDivision.symm⟩

theorem iou_pos_main :
    0 < divisor mainRect1 mainRect2 ∧ 0 < iou mainRect1 mainRect2 := by
  have hreaches : ReachesDivision mainRect1 mainRect2 := by
    norm_num [ReachesDivision, sharedWidth, sharedHeight, mainRect1, mainRect2]
  have hpos := iou_pos_iff mainRect1_proper mainRect2_proper
  exact ⟨(hpos.1 hreaches).2,
    hpos.2.mpr (isOverlap_eq_true_iff_reachesDivision.mpr hreaches)⟩

end Miscellaneous.Iou
