import Miscellaneous.BboxDrawer

/-!
# The scale of the canvas

The smaller one of two ratios scales both dimensions, each of which is then
truncated.  The larger dimension is never too large, but the smaller one can
vanish.  Typed coordinates are scaled by the ratio if they are absolute and by
the truncated size if they are normalised, which makes less than a pixel of a
difference.
-/

namespace Miscellaneous.BboxDrawer

def maxSize : ℕ := 960

/-- `ratiow` and `ratioh`. -/
def clampedRatio (dimension : ℕ) : ℚ :=
  if dimension ≤ maxSize then 1 else maxSize / dimension

def scaleRatio (width height : ℕ) : ℚ :=
  let ratiow := clampedRatio width
  let ratioh := clampedRatio height
  min ratiow ratioh

def imgScaledSize (width height : ℕ) : ℕ × ℕ :=
  (⌊width * scaleRatio width height⌋₊, ⌊height * scaleRatio width height⌋₊)

def display (width height : ℕ) : Display where
  width := (imgScaledSize width height).1
  height := (imgScaledSize width height).2
  scaleRatio := scaleRatio width height

/-- `resize` rejects a size with a zero. -/
def selectImage (width height : ℕ) : Option Display :=
  if (imgScaledSize width height).1 = 0 ∨ (imgScaledSize width height).2 = 0 then
    none
  else some (display width height)

/-! ## The ratio -/

section Ratio

variable {width height : ℕ}

theorem maxSize_pos : 0 < maxSize := by decide

theorem clampedRatio_pos (width : ℕ) : 0 < clampedRatio width := by
  unfold clampedRatio
  split_ifs with hle
  · exact one_pos
  · have hpositive : 0 < width := maxSize_pos.trans (not_le.mp hle)
    exact div_pos (Nat.cast_pos.mpr maxSize_pos) (Nat.cast_pos.mpr hpositive)

theorem clampedRatio_of_lt (hlt : maxSize < width) :
    clampedRatio width = maxSize / width := if_neg (not_le.mpr hlt)

theorem clampedRatio_of_le (hle : width ≤ maxSize) : clampedRatio width = 1 :=
  if_pos hle

theorem clampedRatio_le_one (width : ℕ) : clampedRatio width ≤ 1 := by
  unfold clampedRatio
  split_ifs with hle
  · exact le_rfl
  · have hlt : (maxSize : ℚ) < width := Nat.cast_lt.mpr (not_le.mp hle)
    exact div_le_one_of_le₀ hlt.le (Nat.cast_nonneg width)

theorem clampedRatio_anti (hle : height ≤ width) :
    clampedRatio width ≤ clampedRatio height := by
  rcases le_or_gt height maxSize with hheight | hheight
  · rw [clampedRatio_of_le hheight]
    exact clampedRatio_le_one width
  · rw [clampedRatio_of_lt hheight, clampedRatio_of_lt (hheight.trans_le hle)]
    apply div_le_div_of_nonneg_left (Nat.cast_nonneg maxSize)
    · exact Nat.cast_pos.mpr (maxSize_pos.trans hheight)
    · exact Nat.cast_le.mpr hle

theorem scaleRatio_of_le (hle : height ≤ width) :
    scaleRatio width height = clampedRatio width :=
  min_eq_left (clampedRatio_anti hle)

theorem scaleRatio_comm (width height : ℕ) :
    scaleRatio width height = scaleRatio height width := min_comm _ _

theorem imgScaledSize_comm (width height : ℕ) :
    imgScaledSize height width = (imgScaledSize width height).swap := by
  rw [imgScaledSize, imgScaledSize, scaleRatio_comm]
  rfl

theorem scaleRatio_pos (width height : ℕ) : 0 < scaleRatio width height :=
  lt_min (clampedRatio_pos width) (clampedRatio_pos height)

end Ratio

/-! ## The size -/

structure Fitted (width height : ℕ) (size : ℕ × ℕ) : Prop where
  width_bounds : 1 ≤ size.1 ∧ size.1 ≤ maxSize
  height_bounds : 1 ≤ size.2 ∧ size.2 ≤ maxSize
  original : width ≤ maxSize → height ≤ maxSize → size = (width, height)
  wide : maxSize < width → height ≤ width → size.1 = maxSize
  high : maxSize < height → width ≤ height → size.2 = maxSize

section Size

variable {width height : ℕ}

theorem Fitted.swap {size : ℕ × ℕ} (hfitted : Fitted width height size) :
    Fitted height width size.swap where
  width_bounds := hfitted.height_bounds
  height_bounds := hfitted.width_bounds
  original hheight hwidth := by rw [hfitted.original hwidth hheight]; rfl
  wide := hfitted.high
  high := hfitted.wide

theorem imgScaledSize_of_le (hwidth : width ≤ maxSize)
    (hheight : height ≤ maxSize) :
    imgScaledSize width height = (width, height) := by
  have hratio : scaleRatio width height = 1 := by
    rw [scaleRatio, clampedRatio_of_le hwidth, clampedRatio_of_le hheight]
    exact min_self 1
  rw [imgScaledSize, hratio, mul_one, mul_one, Nat.floor_natCast,
    Nat.floor_natCast]

theorem imgScaledSize_of_lt (hlt : maxSize < width) (hle : height ≤ width) :
    imgScaledSize width height = (maxSize, height * maxSize / width) := by
  have hwidth : width ≠ 0 := Nat.ne_of_gt (maxSize_pos.trans hlt)
  have hcast : (width : ℚ) ≠ 0 := Nat.cast_ne_zero.mpr hwidth
  rw [imgScaledSize, scaleRatio_of_le hle, clampedRatio_of_lt hlt,
    mul_div_cancel₀ _ hcast, Nat.floor_natCast, ← mul_div_assoc,
    ← Nat.cast_mul, ← Nat.mul_cast_floor_div_cancel hwidth,
    div_mul_cancel₀ _ hcast, Nat.floor_natCast]

theorem one_le_imgScaledSize_iff (hpositive : 1 ≤ height)
    (hle : height ≤ width) :
    1 ≤ (imgScaledSize width height).2 ↔ width ≤ maxSize * height := by
  rcases le_or_gt width maxSize with hwidth | hwidth
  · rw [imgScaledSize_of_le hwidth (hle.trans hwidth)]
    exact iff_of_true hpositive
      (hwidth.trans (Nat.le_mul_of_pos_right maxSize hpositive))
  · rw [imgScaledSize_of_lt hwidth hle,
      Nat.le_div_iff_mul_le (maxSize_pos.trans hwidth), one_mul, mul_comm]

theorem fitted_of_one_le (hle : height ≤ width)
    (hone : 1 ≤ (imgScaledSize width height).2) :
    Fitted width height (imgScaledSize width height) := by
  rcases le_or_gt width maxSize with hwidth | hwidth
  · have hheight : height ≤ maxSize := hle.trans hwidth
    rw [imgScaledSize_of_le hwidth hheight] at hone ⊢
    exact ⟨⟨hone.trans hle, hwidth⟩, ⟨hone, hheight⟩, fun _ _ => rfl,
      fun h => absurd h (not_lt.mpr hwidth),
      fun h => absurd h (not_lt.mpr hheight)⟩
  · rw [imgScaledSize_of_lt hwidth hle] at hone ⊢
    have hlast : height * maxSize / width ≤ maxSize :=
      Nat.div_le_of_le_mul (Nat.mul_le_mul_right maxSize hle)
    refine ⟨⟨maxSize_pos, le_rfl⟩, ⟨hone, hlast⟩,
      fun h => absurd h (not_le.mpr hwidth), fun _ _ => rfl,
      fun _ hwidth' => ?_⟩
    rw [le_antisymm hle hwidth']
    exact Nat.mul_div_cancel_left maxSize (maxSize_pos.trans hwidth)

theorem fitted_iff_of_le (hpositive : 1 ≤ height) (hle : height ≤ width) :
    Fitted width height (imgScaledSize width height) ↔
      width ≤ maxSize * height := by
  rw [← one_le_imgScaledSize_iff hpositive hle]
  exact ⟨fun hfitted => hfitted.height_bounds.1, fitted_of_one_le hle⟩

/-- The size is suitable exactly when neither dimension is more than `maxSize`
times the other one. -/
theorem fitted_iff (hwidth : 1 ≤ width) (hheight : 1 ≤ height) :
    Fitted width height (imgScaledSize width height) ↔
      width ≤ maxSize * height ∧ height ≤ maxSize * width := by
  rcases le_total height width with hle | hle
  · rw [fitted_iff_of_le hheight hle, and_iff_left]
    exact hle.trans (Nat.le_mul_of_pos_left width maxSize_pos)
  · have hswap := fitted_iff_of_le hwidth hle
    rw [imgScaledSize_comm] at hswap
    rw [and_iff_right (hle.trans (Nat.le_mul_of_pos_left height maxSize_pos)),
      ← hswap]
    exact ⟨Fitted.swap, Fitted.swap⟩

theorem fitted_banner : Fitted 1920 2 (imgScaledSize 1920 2) :=
  (fitted_iff (by decide) (by decide)).mpr (by decide)

theorem not_fitted_line : ¬Fitted 2000 1 (imgScaledSize 2000 1) :=
  (fitted_iff_of_le le_rfl (by decide)).not.mpr (by decide)

/-- What `resize` accepts is suitable. -/
theorem selectImage_eq_some_iff :
    selectImage width height = some (display width height) ↔
      Fitted width height (imgScaledSize width height) := by
  unfold selectImage
  split_ifs with hzero
  · refine iff_of_false id fun hfitted => ?_
    have hwidth := hfitted.width_bounds.1
    have hheight := hfitted.height_bounds.1
    omega
  · refine iff_of_true rfl ?_
    rcases le_total height width with hle | hle
    · exact fitted_of_one_le hle (by omega)
    · have hsize := imgScaledSize_comm width height
      have hfitted := @fitted_of_one_le height width hle
        (by rw [hsize]; exact Nat.one_le_iff_ne_zero.mpr (not_or.mp hzero).1)
      rw [hsize] at hfitted
      exact hfitted.swap

end Size

/-! ## Absolute and normalised coordinates -/

structure ImageBox (width height : ℕ) where
  left : ℚ
  top : ℚ
  right : ℚ
  bottom : ℚ
  left_nonneg : 0 ≤ left
  left_le : left ≤ right
  right_le : right ≤ width
  top_nonneg : 0 ≤ top
  top_le : top ≤ bottom
  bottom_le : bottom ≤ height

/-- The coordinates to type for a box. -/
def ImageBox.coords {width height : ℕ} (area : ImageBox width height) :
    CoordType → List ℚ
  | .xywhAbs =>
      [area.left, area.top, area.right - area.left, area.bottom - area.top]
  | .xywhNorm =>
      [area.left / width, area.top / height, (area.right - area.left) / width,
        (area.bottom - area.top) / height]
  | .ltbrAbs => [area.left, area.top, area.right, area.bottom]
  | .ltbrNorm =>
      [area.left / width, area.top / height, area.right / width,
        area.bottom / height]

structure Rectangle.Near (first second : Rectangle) : Prop where
  left : |first.left - second.left| < 1
  top : |first.top - second.top| < 1
  right : |first.right - second.right| < 1
  bottom : |first.bottom - second.bottom| < 1

section Boxes

variable {width height : ℕ}

def ImageBox.absolute (area : ImageBox width height) : Rectangle :=
  box (display width height) area.left area.top area.right area.bottom .ltbrAbs

def ImageBox.normalised (area : ImageBox width height) : Rectangle :=
  box (display width height) (area.left / width) (area.top / height)
    (area.right / width) (area.bottom / height) .ltbrNorm

theorem ImageBox.convert_coords (area : ImageBox width height)
    (coordtype : CoordType) :
    convert coordtype (display width height) (area.coords coordtype) =
      some (if coordtype.endsWithNorm then area.normalised
        else area.absolute) := by
  cases coordtype with
  | ltbrAbs | ltbrNorm => rfl
  | xywhAbs =>
      have hright : area.left + (area.right - area.left) = area.right := by ring
      have hbottom : area.top + (area.bottom - area.top) = area.bottom := by ring
      simp only [coords, convert, box, hright, hbottom]
      rfl
  | xywhNorm =>
      have hright : area.left / width + (area.right - area.left) / width =
          area.right / width := by ring
      have hbottom : area.top / height + (area.bottom - area.top) / height =
          area.bottom / height := by ring
      simp only [coords, convert, box, hright, hbottom]
      rfl

/-- A coordinate on an image, scaled by the ratio and by the truncated size. -/
theorem scaled_sub_lt_one {dimension : ℕ} {x ratio : ℚ} (hratio : 0 ≤ ratio)
    (hpositive : 0 < dimension) (hx : 0 ≤ x) (hle : x ≤ dimension) :
    |x * ratio - x / dimension * ⌊dimension * ratio⌋₊| < 1 := by
  have hcast : (0 : ℚ) < dimension := Nat.cast_pos.mpr hpositive
  have hfloor : (⌊dimension * ratio⌋₊ : ℚ) ≤ dimension * ratio :=
    Nat.floor_le (mul_nonneg hcast.le hratio)
  have hfloor' : dimension * ratio < ⌊dimension * ratio⌋₊ + 1 :=
    Nat.lt_floor_add_one _
  have hpart0 : 0 ≤ x / dimension := div_nonneg hx hcast.le
  have hpart1 : x / dimension ≤ 1 := (div_le_one hcast).mpr hle
  have hsame : x * ratio - x / dimension * ⌊dimension * ratio⌋₊ =
      x / dimension * (dimension * ratio - ⌊dimension * ratio⌋₊) := by
    field_simp
  rw [hsame, abs_of_nonneg (mul_nonneg hpart0 (sub_nonneg.mpr hfloor))]
  calc
    x / dimension * (dimension * ratio - ⌊dimension * ratio⌋₊) ≤
        1 * (dimension * ratio - ⌊dimension * ratio⌋₊) :=
      mul_le_mul_of_nonneg_right hpart1 (sub_nonneg.mpr hfloor)
    _ < 1 := by linarith

theorem ImageBox.near (hwidth : 1 ≤ width) (hheight : 1 ≤ height)
    (area : ImageBox width height) : area.absolute.Near area.normalised := by
  have hratio := (scaleRatio_pos width height).le
  have hleft := area.left_nonneg.trans area.left_le
  have htop := area.top_nonneg.trans area.top_le
  exact
    { left := scaled_sub_lt_one hratio hwidth area.left_nonneg
        (area.left_le.trans area.right_le)
      top := scaled_sub_lt_one hratio hheight area.top_nonneg
        (area.top_le.trans area.bottom_le)
      right := scaled_sub_lt_one hratio hwidth hleft area.right_le
      bottom := scaled_sub_lt_one hratio hheight htop area.bottom_le }

theorem ImageBox.coords_nonneg (area : ImageBox width height)
    (coordtype : CoordType) : ∀ x ∈ area.coords coordtype, 0 ≤ x := by
  have hleft := area.left_nonneg
  have htop := area.top_nonneg
  have hright := hleft.trans area.left_le
  have hbottom := htop.trans area.top_le
  have hsides := And.intro (sub_nonneg.mpr area.left_le)
    (sub_nonneg.mpr area.top_le)
  intro x hx
  cases coordtype <;>
    simp only [coords, List.mem_cons, List.not_mem_nil, or_false] at hx <;>
    rcases hx with rfl | rfl | rfl | rfl <;>
    first
      | assumption
      | exact hsides.1
      | exact hsides.2
      | exact div_nonneg (by first | assumption | exact hsides.1 | exact hsides.2)
          (Nat.cast_nonneg _)

/-- Normalised coordinates are always drawn, absolute ones if the first vertex
is before the last column and the last row of the canvas. -/
theorem ImageBox.validationCheck_coords_iff (hwidth : 1 ≤ width)
    (area : ImageBox width height) (coordtype : CoordType) :
    validationCheck coordtype (display width height) (area.coords coordtype) =
        true ↔
      coordtype.endsWithNorm = true ∨
        area.left * scaleRatio width height < (display width height).width ∧
          area.top * scaleRatio width height < (display width height).height := by
  have hratio := (scaleRatio_pos width height).le
  have hnonneg := area.coords_nonneg coordtype
  have hcast : (0 : ℚ) < width := Nat.cast_pos.mpr hwidth
  have hunit : area.left / width ≤ 1 :=
    (div_le_one hcast).mpr (area.left_le.trans area.right_le)
  have hleft := mul_nonneg area.left_nonneg hratio
  have htop := mul_nonneg area.top_nonneg hratio
  cases coordtype with
  | xywhNorm | ltbrNorm =>
      refine iff_of_true ((validationCheck_norm_iff rfl).mpr ⟨hnonneg, ?_⟩)
        (Or.inl rfl)
      exact ⟨_, List.mem_cons_self, hunit⟩
  | xywhAbs | ltbrAbs =>
      rw [or_iff_right (by decide)]
      refine (validationCheck_abs_iff rfl).trans ?_
      exact ⟨fun h => ⟨h.2.1.2, h.2.2.2⟩,
        fun h => ⟨hnonneg, ⟨hleft, h.1⟩, htop, h.2⟩⟩

/-- One rectangle for the two absolute types and one for the two normalised
ones, with less than a pixel between them, and when each is drawn. -/
theorem ImageBox.rectangles (hwidth : 1 ≤ width) (hheight : 1 ≤ height)
    (area : ImageBox width height) :
    ∃ absolute normalised : Rectangle, absolute.Near normalised ∧
      ∀ coordtype : CoordType,
        let rectangle :=
          if coordtype.endsWithNorm then normalised else absolute
        convert coordtype (display width height) (area.coords coordtype) =
            some rectangle ∧
          drawBox coordtype (display width height) (area.coords coordtype) =
            if coordtype.endsWithNorm = true ∨
                area.left * scaleRatio width height <
                    (display width height).width ∧
                  area.top * scaleRatio width height <
                    (display width height).height then
              some rectangle
            else none := by
  refine ⟨area.absolute, area.normalised, area.near hwidth hheight,
    fun coordtype => ⟨area.convert_coords coordtype, ?_⟩⟩
  rw [drawBox, area.convert_coords]
  exact if_congr (area.validationCheck_coords_iff hwidth coordtype) rfl rfl

def lowerRight : ImageBox 1920 1080 :=
  ⟨1000, 700, 1901, 1080, by norm_num, by norm_num, by norm_num, by norm_num,
    by norm_num, by norm_num⟩

theorem lowerRight_rectangles :
    ∃ absolute normalised : Rectangle, absolute.Near normalised ∧
      convert .xywhAbs (display 1920 1080) (lowerRight.coords .xywhAbs) =
          some absolute ∧
        convert .xywhNorm (display 1920 1080) (lowerRight.coords .xywhNorm) =
          some normalised := by
  obtain ⟨absolute, normalised, hnear, hrectangles⟩ :=
    lowerRight.rectangles (by decide) (by decide)
  exact ⟨absolute, normalised, hnear, (hrectangles .xywhAbs).1,
    (hrectangles .xywhNorm).1⟩

end Boxes

end Miscellaneous.BboxDrawer
