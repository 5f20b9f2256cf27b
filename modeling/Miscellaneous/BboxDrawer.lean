import Mathlib.Tactic

/-!
# Drawing a typed box over an image

`select_image` scales an image down to the canvas, `validation_check` decides
which coordinates are drawn, and `draw_box` converts them, all with exact
numbers.  Of four normalised coordinates the check only asks that one of them is
at most one.
-/

namespace Miscellaneous.BboxDrawer

inductive CoordType where
  | xywhAbs
  | xywhNorm
  | ltbrAbs
  | ltbrNorm
  deriving DecidableEq

def CoordType.text : CoordType → String
  | .xywhAbs => "xywh_abs"
  | .xywhNorm => "xywh_norm"
  | .ltbrAbs => "ltbr_abs"
  | .ltbrNorm => "ltbr_norm"

def CoordType.endsWithNorm (coordtype : CoordType) : Bool :=
  "norm".toList.isSuffixOf coordtype.text.toList

structure Display where
  width : ℕ
  height : ℕ
  scaleRatio : ℚ

/-- The first four arguments of `create_rectangle`. -/
structure Rectangle where
  left : ℚ
  top : ℚ
  right : ℚ
  bottom : ℚ
  deriving DecidableEq

def validationCheck (coordtype : CoordType) (img : Display) :
    List ℚ → Bool
  | [x0, x1, x2, x3] =>
      let coords := [x0, x1, x2, x3]
      if coords.any (· < 0) then false
      else if coordtype.endsWithNorm then
        (coords.filter fun e => 0 ≤ e && e ≤ 1).length != 0
      else if x0 * img.scaleRatio < 0 ∨ x0 * img.scaleRatio ≥ img.width then
        false
      else if x1 * img.scaleRatio < 0 ∨ x1 * img.scaleRatio ≥ img.height then
        false
      else true
  | _ => false

/-- The conversion of four coordinates in `draw_box`. -/
def box (img : Display) (x0 x1 x2 x3 : ℚ) : CoordType → Rectangle
  | .xywhAbs =>
      ⟨x0 * img.scaleRatio, x1 * img.scaleRatio, (x0 + x2) * img.scaleRatio,
        (x1 + x3) * img.scaleRatio⟩
  | .xywhNorm =>
      ⟨x0 * img.width, x1 * img.height, (x0 + x2) * img.width,
        (x1 + x3) * img.height⟩
  | .ltbrAbs =>
      ⟨x0 * img.scaleRatio, x1 * img.scaleRatio, x2 * img.scaleRatio,
        x3 * img.scaleRatio⟩
  | .ltbrNorm =>
      ⟨x0 * img.width, x1 * img.height, x2 * img.width, x3 * img.height⟩

def convert (coordtype : CoordType) (img : Display) : List ℚ → Option Rectangle
  | [x0, x1, x2, x3] => some (box img x0 x1 x2 x3 coordtype)
  | _ => none

def drawBox (coordtype : CoordType) (img : Display) (coords : List ℚ) :
    Option Rectangle :=
  if validationCheck coordtype img coords then convert coordtype img coords
  else none

/-! ## What the check accepts -/

section Check

variable {coordtype : CoordType} {img : Display} {x0 x1 x2 x3 : ℚ}

theorem length_of_validationCheck {coords : List ℚ}
    (haccepts : validationCheck coordtype img coords = true) :
    ∃ x0 x1 x2 x3, coords = [x0, x1, x2, x3] := by
  match coords with
  | [x0, x1, x2, x3] => exact ⟨x0, x1, x2, x3, rfl⟩
  | [] | [_] | [_, _] | [_, _, _] | _ :: _ :: _ :: _ :: _ :: _ =>
      cases haccepts

theorem any_negative_eq_true_iff (coords : List ℚ) :
    coords.any (· < 0) = true ↔ ¬∀ x ∈ coords, 0 ≤ x := by
  simp [List.any_eq_true]

theorem filter_unit_ne_zero_iff {coords : List ℚ}
    (hnonneg : ∀ x ∈ coords, 0 ≤ x) :
    ((coords.filter fun e => 0 ≤ e && e ≤ 1).length != 0) = true ↔
      ∃ x ∈ coords, x ≤ 1 := by
  rw [bne_iff_ne, ne_eq, List.length_eq_zero_iff, List.filter_eq_nil_iff,
    not_forall]
  constructor
  · rintro ⟨x, hx⟩
    simp only [Bool.and_eq_true, decide_eq_true_eq,
      Classical.not_imp, not_not] at hx
    exact ⟨x, hx.1, hx.2.2⟩
  · rintro ⟨x, hx, hle⟩
    exact ⟨x, by simp [hx, hle, hnonneg x hx]⟩

theorem validationCheck_norm_iff (hnorm : coordtype.endsWithNorm = true) :
    validationCheck coordtype img [x0, x1, x2, x3] = true ↔
      (∀ x ∈ [x0, x1, x2, x3], 0 ≤ x) ∧ ∃ x ∈ [x0, x1, x2, x3], x ≤ 1 := by
  unfold validationCheck
  simp only [hnorm, if_true, any_negative_eq_true_iff]
  by_cases hnonneg : ∀ x ∈ [x0, x1, x2, x3], 0 ≤ x
  · rw [if_neg (not_not.mpr hnonneg), filter_unit_ne_zero_iff hnonneg]
    exact (and_iff_right hnonneg).symm
  · rw [if_pos hnonneg]
    exact iff_of_false Bool.false_ne_true fun h => hnonneg h.1

theorem validationCheck_abs_iff (habs : coordtype.endsWithNorm = false) :
    validationCheck coordtype img [x0, x1, x2, x3] = true ↔
      (∀ x ∈ [x0, x1, x2, x3], 0 ≤ x) ∧
        (0 ≤ x0 * img.scaleRatio ∧ x0 * img.scaleRatio < img.width) ∧
          0 ≤ x1 * img.scaleRatio ∧ x1 * img.scaleRatio < img.height := by
  unfold validationCheck
  simp only [habs, Bool.false_eq_true, if_false, any_negative_eq_true_iff]
  by_cases hnonneg : ∀ x ∈ [x0, x1, x2, x3], 0 ≤ x
  · rw [if_neg (not_not.mpr hnonneg), iff_true_intro hnonneg, true_and]
    split_ifs with hfirst hsecond
    · refine iff_of_false id fun h => ?_
      exact hfirst.elim (not_lt.mpr h.1.1) (not_le.mpr h.1.2)
    · refine iff_of_false id fun h => ?_
      exact hsecond.elim (not_lt.mpr h.2.1) (not_le.mpr h.2.2)
    · rw [not_or, not_lt, ge_iff_le, not_le] at hfirst hsecond
      exact iff_of_true rfl ⟨hfirst, hsecond⟩
  · rw [if_pos hnonneg]
    exact iff_of_false Bool.false_ne_true fun h => hnonneg h.1

/-- What the check is for. -/
structure Admissible (coordtype : CoordType) (img : Display)
    (coords : List ℚ) : Prop where
  four : coords.length = 4
  unit : coordtype.endsWithNorm = true → ∀ x ∈ coords, 0 ≤ x ∧ x ≤ 1
  corner : ∃ rectangle, drawBox coordtype img coords = some rectangle ∧
    (0 ≤ rectangle.left ∧ rectangle.left ≤ img.width) ∧
      0 ≤ rectangle.top ∧ rectangle.top ≤ img.height

/-- Four normalised coordinates, at most one and above one. -/
structure Mixed (coordtype : CoordType) (coords : List ℚ) : Prop where
  norm : coordtype.endsWithNorm = true
  four : coords.length = 4
  nonneg : ∀ x ∈ coords, 0 ≤ x
  low : ∃ x ∈ coords, x ≤ 1
  high : ∃ x ∈ coords, 1 < x

theorem drawBox_of_validationCheck
    (haccepts : validationCheck coordtype img [x0, x1, x2, x3] = true) :
    drawBox coordtype img [x0, x1, x2, x3] =
      some (box img x0 x1 x2 x3 coordtype) := if_pos haccepts

theorem box_corner_of_norm (hnorm : coordtype.endsWithNorm = true) :
    (box img x0 x1 x2 x3 coordtype).left = x0 * img.width ∧
      (box img x0 x1 x2 x3 coordtype).top = x1 * img.height := by
  cases coordtype with
  | xywhNorm | ltbrNorm => exact ⟨rfl, rfl⟩
  | xywhAbs | ltbrAbs => exact absurd hnorm (by decide)

theorem box_corner_of_abs (habs : coordtype.endsWithNorm = false) :
    (box img x0 x1 x2 x3 coordtype).left = x0 * img.scaleRatio ∧
      (box img x0 x1 x2 x3 coordtype).top = x1 * img.scaleRatio := by
  cases coordtype with
  | xywhAbs | ltbrAbs => exact ⟨rfl, rfl⟩
  | xywhNorm | ltbrNorm => exact absurd habs (by decide)

/-- Only normalised coordinates of which some are at most one and some are
above one pass the check without being admissible. -/
theorem admissible_iff (coordtype : CoordType) (img : Display)
    (coords : List ℚ) :
    (validationCheck coordtype img coords = true →
      Admissible coordtype img coords) ↔ ¬Mixed coordtype coords := by
  constructor
  · intro hadmissible hmixed
    obtain ⟨x0, x1, x2, x3, rfl⟩ : ∃ x0 x1 x2 x3, coords = [x0, x1, x2, x3] :=
      List.length_eq_four.mp hmixed.four
    have haccepts : validationCheck coordtype img [x0, x1, x2, x3] = true :=
      (validationCheck_norm_iff hmixed.norm).mpr ⟨hmixed.nonneg, hmixed.low⟩
    rcases hmixed.high with ⟨x, hx, hgt⟩
    exact absurd ((hadmissible haccepts).unit hmixed.norm x hx).2
      (not_le.mpr hgt)
  · intro hmixed haccepts
    obtain ⟨x0, x1, x2, x3, rfl⟩ := length_of_validationCheck haccepts
    by_cases hnorm : coordtype.endsWithNorm = true
    · obtain ⟨hnonneg, hlow⟩ := (validationCheck_norm_iff hnorm).mp haccepts
      have hhigh : ∀ x ∈ [x0, x1, x2, x3], x ≤ 1 := by
        intro x hx
        by_contra hgt
        exact hmixed ⟨hnorm, rfl, hnonneg, hlow, x, hx, not_le.mp hgt⟩
      refine ⟨rfl, fun _ x hx => ⟨hnonneg x hx, hhigh x hx⟩, _,
        drawBox_of_validationCheck haccepts, ?_⟩
      rw [(box_corner_of_norm hnorm).1, (box_corner_of_norm hnorm).2]
      have hwidth : (0 : ℚ) ≤ img.width := Nat.cast_nonneg _
      have hheight : (0 : ℚ) ≤ img.height := Nat.cast_nonneg _
      exact ⟨⟨mul_nonneg (hnonneg x0 (by simp)) hwidth,
          mul_le_of_le_one_left hwidth (hhigh x0 (by simp))⟩,
        mul_nonneg (hnonneg x1 (by simp)) hheight,
        mul_le_of_le_one_left hheight (hhigh x1 (by simp))⟩
    · rw [Bool.not_eq_true] at hnorm
      obtain ⟨_, hfirst, hsecond⟩ := (validationCheck_abs_iff hnorm).mp haccepts
      refine ⟨rfl, fun h => absurd (hnorm.symm.trans h) Bool.false_ne_true, _,
        drawBox_of_validationCheck haccepts, ?_⟩
      rw [(box_corner_of_abs hnorm).1, (box_corner_of_abs hnorm).2]
      exact ⟨⟨hfirst.1, hfirst.2.le⟩, hsecond.1, hsecond.2.le⟩

theorem not_admissible_five :
    validationCheck .xywhNorm ⟨100, 100, 1⟩ [5, 0, 0, 0] = true ∧
      ¬Admissible .xywhNorm ⟨100, 100, 1⟩ [5, 0, 0, 0] := by
  constructor
  · rw [validationCheck_norm_iff rfl]
    simp
  · intro hadmissible
    have hle := (hadmissible.unit rfl 5 (by simp)).2
    norm_num at hle

end Check

end Miscellaneous.BboxDrawer
