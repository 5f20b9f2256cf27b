import Miscellaneous.GaussianBlur

/-!
# Blurring a flat image

A tap that falls outside of the image is skipped, and the weights of the others
are not scaled up for it.  A sample of a flat image therefore keeps the share of
its value that the weights of the taps inside of the image have.
-/

namespace Miscellaneous.GaussianBlur

open WeightedSums

/-- The weights of the taps around `position` that are not skipped. -/
def innerWeight (gaussianArray : ℕ → ℚ) (center size position : ℕ) : ℚ :=
  ∑ t ∈ Finset.range (2 * center + 1),
    if Outside center size position t then 0 else gaussianArray t

def IsFlat (src : Mat) (v : UInt8) : Prop :=
  ∀ i < src.rows, ∀ j < src.cols, ∀ c < src.channels,
    src.ptr i (j * src.channels + c) = v

section Weights

variable {gaussianArray : ℕ → ℚ} {center : ℕ}

theorem innerWeight_eq_one
    (hkernel : IsKernel gaussianArray (2 * center + 1)) {size position : ℕ}
    (hbefore : center ≤ position) (hbehind : position + center < size) :
    innerWeight gaussianArray center size position = 1 := by
  unfold innerWeight
  rw [← hkernel.sum_eq]
  apply Finset.sum_congr rfl
  intro t ht
  rw [Finset.mem_range] at ht
  apply if_neg
  unfold Outside tap
  omega

/-- In a flat image the two directions separate. -/
theorem fullSum_flat {src : Mat} {v : UInt8} (hflat : IsFlat src v)
    (i j : ℕ) {c : ℕ} (hc : c < src.channels) :
    fullSum gaussianArray center src i j c =
      v.toNat * (innerWeight gaussianArray center src.rows i *
        innerWeight gaussianArray center src.cols j) := by
  unfold fullSum innerWeight
  rw [Finset.sum_mul_sum, Finset.mul_sum]
  apply Finset.sum_congr rfl
  intro t _
  rw [Finset.mul_sum]
  apply Finset.sum_congr rfl
  intro u _
  by_cases hrow : Outside center src.rows i t
  · rw [if_pos (Or.inl hrow), if_pos hrow, zero_mul, mul_zero]
  · by_cases hcolumn : Outside center src.cols j u
    · rw [if_pos (Or.inr hcolumn), if_pos hcolumn, mul_zero, mul_zero]
    · have hsample := hflat _ (tap_toNat_lt hrow) _ (tap_toNat_lt hcolumn) c hc
      rw [if_neg (not_or.mpr ⟨hrow, hcolumn⟩), if_neg hrow, if_neg hcolumn,
        hsample]

end Weights

/-- In an image whose indices fit, a sample of a flat image keeps its share,
less than two of it lost, and where no tap is skipped this is all of it. -/
theorem blur_flat {src : Mat} {kernelSize : ℕ} (hodd : kernelSize % 2 = 1)
    (hfit : IndicesFit src.rows src.cols src.channels (kernelSize / 2))
    {gaussianArray : ℕ → ℚ} (hkernel : IsKernel gaussianArray kernelSize)
    {v : UInt8} (hflat : IsFlat src v) :
    ∃ blurred, blur src kernelSize gaussianArray = some blurred ∧
      ∀ i < src.rows, ∀ j < src.cols, ∀ c < src.channels,
        let center := kernelSize / 2
        let share : ℚ := v.toNat *
          (innerWeight gaussianArray center src.rows i *
            innerWeight gaussianArray center src.cols j)
        let sample : ℚ := (blurred.ptr i (j * src.channels + c)).toNat
        sample ≤ share ∧ share - sample < 2 ∧
          (center ≤ i → i + center < src.rows → center ≤ j →
            j + center < src.cols → |sample - v.toNat| < 2) := by
  rcases blursClose_of_indicesFit hodd hkernel hfit with
    ⟨_, blurred, _, hblur, hclose⟩
  refine ⟨blurred, hblur, ?_⟩
  intro i hi j hj c hc center share sample
  have hbounds := hclose i hi j hj c hc
  have hle := hbounds.le
  have hlt := hbounds.sub_lt
  rw [fullSum_flat hflat i j hc] at hle hlt
  refine ⟨hle, hlt, ?_⟩
  intro habove hbelow hleft hright
  have hsize : kernelSize = 2 * center + 1 := by omega
  rw [hsize] at hkernel
  have hshare : share = v.toNat := by
    unfold share
    rw [innerWeight_eq_one hkernel habove hbelow,
      innerWeight_eq_one hkernel hleft hright, mul_one, mul_one]
  have hbelow' : sample ≤ v.toNat := hshare ▸ hle
  have habove' : v.toNat - sample < 2 := hshare ▸ hlt
  rw [abs_lt]
  constructor <;> linarith

/-! ## A white image -/

def white : Mat := ⟨3, 3, 1, fun _ _ => 255⟩

def quarters (t : ℕ) : ℚ := if t = 1 then 1 / 2 else 1 / 4

theorem quarters_pos (t : ℕ) : 0 < quarters t := by
  unfold quarters
  split_ifs <;> norm_num

theorem isKernel_quarters : IsKernel quarters 3 := by
  constructor
  · intro t _
    exact (quarters_pos t).le
  · norm_num [quarters, Finset.sum_range_succ]

theorem isFlat_white : IsFlat white 255 :=
  fun _ _ _ _ _ _ => rfl

theorem indicesFit_white :
    IndicesFit white.rows white.cols white.channels (3 / 2) :=
  Or.inr (Or.inr (Or.inr (by decide)))

theorem blur_flat_white :
    ∃ blurred, blur white 3 quarters = some blurred ∧
      |((blurred.ptr 1 1).toNat : ℚ) - (255 : UInt8).toNat| < 2 := by
  rcases blur_flat (by decide : 3 % 2 = 1) indicesFit_white isKernel_quarters
    isFlat_white with ⟨blurred, hblur, hall⟩
  have hsample := hall 1 (by decide) 1 (by decide) 0 (by decide)
  exact ⟨blurred, hblur,
    hsample.2.2 (by decide) (by decide) (by decide) (by decide)⟩

/-- In its corner only nine sixteenths of the value are left. -/
theorem blur_darkens_corner :
    ¬∀ (src : Mat) (kernelSize : ℕ) (gaussianArray : ℕ → ℚ) (v : UInt8),
      kernelSize % 2 = 1 → (∀ t < kernelSize, 0 < gaussianArray t) →
      ∑ t ∈ Finset.range kernelSize, gaussianArray t = 1 → IsFlat src v →
      ∃ blurred, blur src kernelSize gaussianArray = some blurred ∧
        ∀ i < src.rows, ∀ j < src.cols, ∀ c < src.channels,
          |((blurred.ptr i (j * src.channels + c)).toNat : ℚ) - v.toNat| ≤ 2 := by
  intro hall
  rcases hall white 3 quarters 255 (by decide) (fun t _ => quarters_pos t)
    isKernel_quarters.sum_eq isFlat_white with ⟨blurred, hblur, hclose⟩
  have hcorner := hclose 0 (by decide) 0 (by decide) 0 (by decide)
  rcases blursClose_of_indicesFit (by decide : 3 % 2 = 1) isKernel_quarters
    indicesFit_white with ⟨_, blurred', _, hblur', hbounds⟩
  obtain rfl : blurred = blurred' := Option.some.inj (hblur.symm.trans hblur')
  have hbound := (hbounds 0 (by decide) 0 (by decide) 0 (by decide)).le
  rw [fullSum_flat isFlat_white 0 0 (by decide)] at hbound
  have hweight : innerWeight quarters (3 / 2) 3 0 = 3 / 4 := by
    norm_num [innerWeight, Outside, tap, quarters, Finset.sum_range_succ]
  have hrows : white.rows = 3 := rfl
  have hcols : white.cols = 3 := rfl
  have hvalue : ((255 : UInt8).toNat : ℚ) = 255 := by
    have hbyte : (255 : UInt8).toNat = 255 := rfl
    rw [hbyte, Nat.cast_ofNat]
  rw [hrows, hcols, hweight, hvalue] at hbound
  rw [hvalue] at hcorner
  have hdark := (abs_le.mp hcorner).1
  linarith

end Miscellaneous.GaussianBlur
