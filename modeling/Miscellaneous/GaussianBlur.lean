import Miscellaneous.CInts
import Miscellaneous.WeightedSums
import Mathlib.Algebra.Order.Floor.Semifield
import Mathlib.Data.Rat.Floor
import Mathlib.Tactic

/-!
# Gaussian blur

`gaussian` of `test_opencv.cpp` over exact numbers.  The first pass blurs the
rows into a copy of the image, the second one blurs the columns of the copy into
the image itself.  Each pass rounds every sample down, so what the two passes
lose against the sum over both directions is less than two.
-/

namespace Miscellaneous.GaussianBlur

open CInts WeightedSums

/-- An image of 8-bit samples; `ptr i` is the row `i`, where the sample of the
channel `c` in the column `j` is at `j * channels + c`. -/
structure Mat where
  rows : ℕ
  cols : ℕ
  channels : ℕ
  ptr : ℕ → ℕ → UInt8

def Mat.set (mat : Mat) (i offset : ℕ) (value : UInt8) : Mat :=
  { mat with
    ptr := Function.update mat.ptr i
      (Function.update (mat.ptr i) offset value) }

/-- The three loops around the body of a pass, over the samples of an image of
this size. -/
def forEachSample (rows cols channels : ℕ)
    (body : ℕ → ℕ → ℕ → Mat → Option Mat) (mat : Mat) : Option Mat :=
  (List.range rows).foldlM
    (fun mat i => (List.range cols).foldlM
      (fun mat j => (List.range channels).foldlM
        (fun mat c => body i j c mat) mat) mat) mat

/-! ## The weights -/

def pi : ℚ := 3.14159265359

section Weights

-- the exponential function of the library
variable (exp : ℚ → ℚ)

/-- An element of the array before the division by the sum; the square is a
product of two numbers of type `int`. -/
def gaussianElement (arrSize : ℕ) (sigma : ℚ) (i : ℕ) : Option ℚ := do
  let centerI : ℤ := arrSize / 2
  let sigmaSquare2 := 2 * sigma * sigma
  let square ← checked ((i - centerI) * (i - centerI))
  return (1 / pi * sigmaSquare2) * exp (-1 * (square / sigmaSquare2))

def getGaussianArray (arrSize : ℕ) (sigma : ℚ) : Option (ℕ → ℚ) := do
  let array ← (List.range arrSize).mapM (gaussianElement exp arrSize sigma)
  let sum := array.foldl (· + ·) 0
  return fun i => array.getD i 0 / sum

end Weights

/-! ## The passes -/

/-- `MAX(MIN(sum, 255), 0)`. -/
def clamp (sum : ℚ) : ℚ := max (min sum 255) 0

/-- The conversion of a `double` to `uchar`. -/
def toUchar (value : ℚ) : UInt8 := UInt8.ofNat ⌊value⌋₊

/-- `column * channels + c`. -/
def sampleIndex (channels c : ℕ) (column : ℤ) : Option ℤ := do
  let start ← checked (column * channels)
  checked (start + c)

section Passes

variable (gaussianArray : ℕ → ℚ) (center channels : ℕ)

/-- The loop over `k` from `-center` to `center`, around a position in a row or
a column of this size.  `k + center` is not greater than `kernelSize`. -/
def tapSum (size position : ℕ) (sample : ℤ → Option ℚ) : Option ℚ :=
  (List.range (2 * center + 1)).foldlM
    (fun sum (t : ℕ) => do
      let k : ℤ := t - center
      let tap ← checked (position + k)
      if tap < 0 ∨ tap ≥ size then return sum
      else do
        let value ← sample tap
        return sum + value * gaussianArray (k + center).toNat)
    0

/-- The sum of the first pass. -/
def sumX (src : Mat) (i j c : ℕ) : Option ℚ :=
  tapSum gaussianArray center src.cols j fun column => do
    let index ← sampleIndex channels c column
    return ((src.ptr i index.toNat).toNat : ℚ)

def sumY (src temp : Mat) (i j c : ℕ) : Option ℚ :=
  tapSum gaussianArray center src.rows i fun row => do
    let index ← sampleIndex channels c j
    return ((temp.ptr row.toNat index.toNat).toNat : ℚ)

/-- The first pass writes to a copy of the image. -/
def passX (src : Mat) : Option Mat :=
  forEachSample src.rows src.cols channels
    (fun i j c temp => do
      let sum ← sumX gaussianArray center channels src i j c
      let index ← sampleIndex channels c j
      return temp.set i index.toNat (toUchar (clamp sum)))
    src

/-- The second pass reads the copy and writes to the image. -/
def passY (temp src : Mat) : Option Mat :=
  forEachSample src.rows src.cols channels
    (fun i j c src => do
      let sum ← sumY gaussianArray center channels src temp i j c
      let index ← sampleIndex channels c j
      return src.set i index.toNat (toUchar (clamp sum)))
    src

end Passes

/-- The two passes, for the weights of the array. -/
def blur (src : Mat) (kernelSize : ℕ) (gaussianArray : ℕ → ℚ) : Option Mat := do
  let center := kernelSize / 2
  let channels := src.channels
  let temp ← passX gaussianArray center channels src
  passY gaussianArray center channels temp src

def gaussian (exp : ℚ → ℚ) (src : Mat) (kernelSize : ℕ) (sigma : ℚ) :
    Option Mat := do
  let gaussianArray ← getGaussianArray exp kernelSize sigma
  blur src kernelSize gaussianArray

/-- The positions behind an image that the loops compare with its size, and
the indices of the samples, are in the range of `int`. -/
def IndicesFit (rows cols channels center : ℕ) : Prop :=
  rows = 0 ∨ cols = 0 ∨ channels = 0 ∨
    rows + center ≤ 2 ^ 31 ∧ cols + center ≤ 2 ^ 31 ∧ cols * channels ≤ 2 ^ 31

/-! ## What the loops write -/

/-- The samples in the order of the loops. -/
def samples (rows cols channels : ℕ) : List (ℕ × ℕ × ℕ) :=
  (List.range rows).flatMap fun i =>
    (List.range cols).flatMap fun j =>
      (List.range channels).map fun c => (i, j, c)

theorem mem_samples {rows cols channels i j c : ℕ} :
    (i, j, c) ∈ samples rows cols channels ↔
      i < rows ∧ j < cols ∧ c < channels := by
  simp [samples]

theorem forEachSample_eq (rows cols channels : ℕ)
    (body : ℕ → ℕ → ℕ → Mat → Option Mat) (mat : Mat) :
    forEachSample rows cols channels body mat =
      (samples rows cols channels).foldlM
        (fun mat sample => body sample.1 sample.2.1 sample.2.2 mat) mat := by
  simp only [forEachSample, samples, foldlM_flatMap, List.foldlM_map]

/-- The samples of a row have places of their own. -/
theorem offset_inj {channels j j' c c' : ℕ} (hc : c < channels)
    (hc' : c' < channels) :
    j * channels + c = j' * channels + c' ↔ j = j' ∧ c = c' := by
  constructor
  · intro hsame
    have hmod := congrArg (· % channels) hsame
    have hdiv := congrArg (· / channels) hsame
    have hpos : 0 < channels := by omega
    rw [Nat.mul_comm j, Nat.mul_comm j'] at hmod hdiv
    simp only [Nat.mul_add_mod, Nat.mul_add_div hpos, Nat.mod_eq_of_lt hc,
      Nat.mod_eq_of_lt hc', Nat.div_eq_of_lt hc, Nat.div_eq_of_lt hc',
      Nat.add_zero] at hmod hdiv
    exact ⟨hdiv, hmod⟩
  · rintro ⟨hj, hc⟩
    rw [hj, hc]

theorem Mat.set_ptr_self (mat : Mat) (i offset : ℕ) (value : UInt8) :
    (mat.set i offset value).ptr i offset = value := by
  simp [Mat.set]

theorem Mat.set_ptr_of_ne (mat : Mat) {i offset i' offset' : ℕ}
    (value : UInt8) (hne : ¬(i' = i ∧ offset' = offset)) :
    (mat.set i offset value).ptr i' offset' = mat.ptr i' offset' := by
  by_cases hrow : i' = i
  · subst hrow
    have hoffset : offset' ≠ offset := fun hsame => hne ⟨rfl, hsame⟩
    simp [Mat.set, hoffset]
  · simp [Mat.set, hrow]

theorem foldl_set {channels : ℕ} (value : ℕ → ℕ → ℕ → UInt8)
    (list : List (ℕ × ℕ × ℕ)) (hlist : ∀ sample ∈ list, sample.2.2 < channels)
    (mat : Mat) {i j c : ℕ} (hc : c < channels) :
    (list.foldl
        (fun mat sample => mat.set sample.1 (sample.2.1 * channels + sample.2.2)
          (value sample.1 sample.2.1 sample.2.2)) mat).ptr i
            (j * channels + c) =
      if (i, j, c) ∈ list then value i j c else mat.ptr i (j * channels + c) := by
  induction list using List.reverseRecOn with
  | nil => simp
  | append_singleton list sample ih =>
      rcases sample with ⟨i', j', c'⟩
      have hc' : c' < channels := hlist (i', j', c') (by simp)
      have hbefore := ih fun sample hsample =>
        hlist sample (List.mem_append_left _ hsample)
      rw [List.foldl_append, List.foldl_cons, List.foldl_nil]
      by_cases hsame : (i, j, c) = (i', j', c')
      · simp only [Prod.mk.injEq] at hsame
        rcases hsame with ⟨rfl, rfl, rfl⟩
        rw [Mat.set_ptr_self, if_pos (by simp)]
      · have hother : ¬(i = i' ∧ j * channels + c = j' * channels + c') := by
          rintro ⟨hi, hoffset⟩
          rcases (offset_inj hc hc').mp hoffset with ⟨hj, hchannel⟩
          exact hsame (by rw [hi, hj, hchannel])
        rw [Mat.set_ptr_of_ne _ _ hother, hbefore]
        simp only [List.mem_append, List.mem_singleton, hsame, or_false]

/-- The loops around a body which writes a value that depends on the number of
rows of the image only. -/
theorem forEachSample_eq_some {rows cols channels : ℕ}
    {body : ℕ → ℕ → ℕ → Mat → Option Mat} (value : ℕ → ℕ → ℕ → UInt8)
    (hbody : ∀ i < rows, ∀ j < cols, ∀ c < channels, ∀ mat, mat.rows = rows →
      body i j c mat = some (mat.set i (j * channels + c) (value i j c)))
    {mat : Mat} (hmat : mat.rows = rows) :
    ∃ final, forEachSample rows cols channels body mat = some final ∧
      ∀ i < rows, ∀ j < cols, ∀ c < channels,
        final.ptr i (j * channels + c) = value i j c := by
  have hrun := @foldlM_eq_some_foldl _ _ _ (samples rows cols channels) _
    (fun mat : Mat => mat.rows = rows)
    (fun sample hsample mat hrows => hbody _ (mem_samples.mp hsample).1 _
      (mem_samples.mp hsample).2.1 _ (mem_samples.mp hsample).2.2 mat hrows)
    (fun _ _ _ hrows => hrows) mat hmat
  refine ⟨_, (forEachSample_eq rows cols channels body mat).trans hrun, ?_⟩
  intro i hi j hj c hc
  rw [foldl_set value _ _ _ hc, if_pos (mem_samples.mpr ⟨hi, hj, hc⟩)]
  exact fun sample hsample => (mem_samples.mp hsample).2.2

theorem forEachSample_eq_none {rows cols channels : ℕ}
    {body : ℕ → ℕ → ℕ → Mat → Option Mat} {i j c : ℕ} (hi : i < rows)
    (hj : j < cols) (hc : c < channels) (hbody : ∀ mat, body i j c mat = none)
    (mat : Mat) : forEachSample rows cols channels body mat = none := by
  rw [forEachSample_eq]
  exact foldlM_eq_none_of_mem (mem_samples.mpr ⟨hi, hj, hc⟩) hbody mat

/-! ## The sums as weighted sums -/

section Sums

/-- The index that the tap `t` of a kernel around `position` falls on. -/
def tap (center position t : ℕ) : ℤ := position + (t - center)

/-- A tap outside of an image of this size. -/
def Outside (center size position t : ℕ) : Prop :=
  tap center position t < 0 ∨ tap center position t ≥ size

instance (center size position t : ℕ) :
    Decidable (Outside center size position t) :=
  inferInstanceAs (Decidable (_ ∨ _))

/-- The value of a tap; zero outside of the image. -/
def tapValue (center size position : ℕ) (value : ℕ → ℚ) (t : ℕ) : ℚ :=
  if Outside center size position t then 0
  else value (tap center position t).toNat

theorem tapValue_outside {center size position t : ℕ} {value : ℕ → ℚ}
    (houtside : Outside center size position t) :
    tapValue center size position value t = 0 :=
  if_pos houtside

theorem tapValue_inside {center size position t : ℕ} {value : ℕ → ℚ}
    (hinside : ¬Outside center size position t) :
    tapValue center size position value t =
      value (tap center position t).toNat :=
  if_neg hinside

theorem tap_toNat_lt {center size position t : ℕ}
    (hinside : ¬Outside center size position t) :
    (tap center position t).toNat < size := by
  unfold Outside at hinside
  omega

/-- The weighted sum over the taps around a position. -/
def tapTotal (gaussianArray : ℕ → ℚ) (center size position : ℕ)
    (value : ℕ → ℚ) : ℚ :=
  ∑ t ∈ Finset.range (2 * center + 1),
    tapValue center size position value t * gaussianArray t

theorem tapSum_eq (gaussianArray : ℕ → ℚ) {center size position : ℕ}
    {value : ℕ → ℚ} {sample : ℤ → Option ℚ} (hfit : position + center < 2 ^ 31)
    (hsample : ∀ q < size, sample q = some (value q)) :
    tapSum gaussianArray center size position sample =
      some (tapTotal gaussianArray center size position value) := by
  have hloop := foldl_skip_range
    (fun t => Outside center size position t)
    (fun t => value (tap center position t).toNat * gaussianArray t)
    (2 * center + 1)
  have htotal : tapTotal gaussianArray center size position value =
      ∑ t ∈ Finset.range (2 * center + 1),
        if Outside center size position t then 0
        else value (tap center position t).toNat * gaussianArray t := by
    apply Finset.sum_congr rfl
    intro t _
    unfold tapValue
    split_ifs
    · rw [zero_mul]
    · rfl
  rw [htotal, ← hloop]
  unfold tapSum
  refine @foldlM_eq_some_foldl _ _ _ _ _ (fun _ => True) ?_
    (fun _ _ _ _ => trivial) 0 trivial
  intro t ht sum _
  rw [List.mem_range] at ht
  have htap : checked (position + ((t : ℤ) - center)) =
      some (tap center position t) :=
    checked_of_fits (by unfold Fits; omega)
  have hindex : ((t : ℤ) - center + center).toNat = t := by omega
  simp only [htap, hindex, Option.bind_eq_bind, Option.bind_some]
  by_cases houtside : Outside center size position t
  · have hskip : tap center position t < 0 ∨ tap center position t ≥ size :=
      houtside
    rw [if_pos hskip, if_pos houtside]
    rfl
  · have hinside : ¬(tap center position t < 0 ∨
        tap center position t ≥ size) := houtside
    have hcast : tap center position t = ((tap center position t).toNat : ℤ) :=
      by omega
    rw [if_neg hinside, if_neg houtside, hcast, hsample _ (by omega)]
    rfl

/-- The last tap is computed before it is compared with the size. -/
theorem tapSum_eq_none (gaussianArray : ℕ → ℚ) {center size position : ℕ}
    (sample : ℤ → Option ℚ) (hover : 2 ^ 31 ≤ position + center) :
    tapSum gaussianArray center size position sample = none := by
  have hlast : 2 * center ∈ List.range (2 * center + 1) := by simp
  refine foldlM_eq_none_of_mem hlast ?_ 0
  intro sum
  have htap : checked (position + (((2 * center : ℕ) : ℤ) - center)) = none :=
    checked_of_not_fits (by unfold Fits; omega)
  simp only [htap]
  rfl

theorem offset_lt {cols channels j c : ℕ} (hj : j < cols) (hc : c < channels) :
    j * channels + c < cols * channels :=
  Nat.lt_of_lt_of_le (by rw [Nat.succ_mul]; omega)
    (Nat.mul_le_mul_right channels hj)

theorem last_offset {cols channels : ℕ} (hcols : 0 < cols)
    (hchannels : 0 < channels) :
    (cols - 1) * channels + (channels - 1) + 1 = cols * channels := by
  obtain ⟨n, rfl⟩ := Nat.exists_eq_succ_of_ne_zero hcols.ne'
  rw [Nat.succ_sub_one, Nat.succ_mul]
  omega

theorem sampleIndex_eq {cols channels j c : ℕ} (hj : j < cols)
    (hc : c < channels) (hfit : cols * channels ≤ 2 ^ 31) :
    sampleIndex channels c j = some ((j * channels + c : ℕ) : ℤ) := by
  have hlast := offset_lt hj hc
  have hstart : checked ((j : ℤ) * channels) =
      some ((j * channels : ℕ) : ℤ) := by
    rw [← Nat.cast_mul]
    exact checked_of_fits (by unfold Fits; omega)
  unfold sampleIndex
  simp only [hstart, Option.bind_eq_bind, Option.bind_some]
  rw [← Nat.cast_add]
  exact checked_of_fits (by unfold Fits; omega)

/-- The index of the last sample of a row. -/
theorem sampleIndex_eq_none {cols channels : ℕ} (hcols : 0 < cols)
    (hchannels : 0 < channels) (hover : 2 ^ 31 < cols * channels) :
    sampleIndex channels (channels - 1) ((cols - 1 : ℕ) : ℤ) = none := by
  have hlast := last_offset hcols hchannels
  unfold sampleIndex
  by_cases hstart : Fits (((cols - 1 : ℕ) : ℤ) * channels)
  · simp only [checked_of_fits hstart, Option.bind_eq_bind, Option.bind_some]
    refine checked_of_not_fits ?_
    rw [← Nat.cast_mul, ← Nat.cast_add]
    unfold Fits
    omega
  · simp only [checked_of_not_fits hstart]
    rfl

end Sums

section Values

variable (gaussianArray : ℕ → ℚ) (center channels : ℕ)

/-- What `sumX` computes. -/
def totalX (src : Mat) (i j c : ℕ) : ℚ :=
  tapTotal gaussianArray center src.cols j
    fun q => (src.ptr i (q * channels + c)).toNat

/-- What `sumY` computes. -/
def totalY (rows : ℕ) (temp : Mat) (i j c : ℕ) : ℚ :=
  tapTotal gaussianArray center rows i
    fun p => (temp.ptr p (j * channels + c)).toNat

variable {gaussianArray center channels}

theorem sumX_eq {src : Mat} {i j c : ℕ} (hj : j < src.cols)
    (hc : c < channels) (hcols : src.cols + center ≤ 2 ^ 31)
    (hindex : src.cols * channels ≤ 2 ^ 31) :
    sumX gaussianArray center channels src i j c =
      some (totalX gaussianArray center channels src i j c) := by
  refine tapSum_eq gaussianArray (by omega) fun q hq => ?_
  rw [sampleIndex_eq hq hc hindex]
  rfl

theorem sumY_eq {src temp : Mat} {i j c : ℕ} {cols : ℕ} (hi : i < src.rows)
    (hj : j < cols) (hc : c < channels) (hrows : src.rows + center ≤ 2 ^ 31)
    (hindex : cols * channels ≤ 2 ^ 31) :
    sumY gaussianArray center channels src temp i j c =
      some (totalY gaussianArray center channels src.rows temp i j c) := by
  refine tapSum_eq gaussianArray (by omega) fun p _ => ?_
  rw [sampleIndex_eq hj hc hindex]
  rfl

end Values

/-! ## The passes -/

section Passes

variable {gaussianArray : ℕ → ℚ} {center channels : ℕ}

theorem passX_eq_some {src : Mat} (hcols : src.cols + center ≤ 2 ^ 31)
    (hindex : src.cols * channels ≤ 2 ^ 31) :
    ∃ temp, passX gaussianArray center channels src = some temp ∧
      ∀ i < src.rows, ∀ j < src.cols, ∀ c < channels,
        temp.ptr i (j * channels + c) =
          toUchar (clamp (totalX gaussianArray center channels src i j c)) := by
  refine forEachSample_eq_some
    (fun i j c => toUchar (clamp (totalX gaussianArray center channels src i j c)))
    ?_ rfl
  intro i _ j hj c hc mat _
  rw [sumX_eq hj hc hcols hindex, sampleIndex_eq hj hc hindex]
  rfl

/-- The second pass reads no sample that it has written; of the image it reads
only the number of rows. -/
theorem passY_eq_some {temp src : Mat} (hrows : src.rows + center ≤ 2 ^ 31)
    (hindex : src.cols * channels ≤ 2 ^ 31) :
    ∃ blurred, passY gaussianArray center channels temp src = some blurred ∧
      ∀ i < src.rows, ∀ j < src.cols, ∀ c < channels,
        blurred.ptr i (j * channels + c) = toUchar (clamp
          (totalY gaussianArray center channels src.rows temp i j c)) := by
  refine forEachSample_eq_some
    (fun i j c => toUchar (clamp
      (totalY gaussianArray center channels src.rows temp i j c))) ?_ rfl
  intro i hi j hj c hc mat hmat
  rw [sumY_eq (by rw [hmat]; exact hi) hj hc (by rw [hmat]; exact hrows) hindex,
    sampleIndex_eq hj hc hindex, hmat]
  rfl

/-- Without any sample nothing is computed. -/
theorem forEachSample_of_empty {rows cols channels : ℕ}
    (hempty : rows = 0 ∨ cols = 0 ∨ channels = 0)
    (body : ℕ → ℕ → ℕ → Mat → Option Mat) (mat : Mat) :
    forEachSample rows cols channels body mat = some mat := by
  have hsamples : samples rows cols channels = [] := by
    rw [List.eq_nil_iff_forall_not_mem]
    rintro ⟨i, j, c⟩ hsample
    have hbounds := mem_samples.mp hsample
    omega
  rw [forEachSample_eq, hsamples]
  rfl

theorem passX_eq_none {src : Mat} {j c : ℕ} (hi : 0 < src.rows)
    (hj : j < src.cols) (hc : c < channels)
    (hnone : 2 ^ 31 ≤ j + center ∨ sampleIndex channels c j = none) :
    passX gaussianArray center channels src = none := by
  refine forEachSample_eq_none hi hj hc ?_ src
  intro mat
  rcases hnone with hover | hindex
  · have hsum : sumX gaussianArray center channels src 0 j c = none :=
      tapSum_eq_none gaussianArray _ hover
    rw [hsum]
    rfl
  · rw [hindex]
    cases sumX gaussianArray center channels src 0 j c <;> rfl

theorem passY_eq_none {temp src : Mat} (hrows : 0 < src.rows)
    (hcols : 0 < src.cols) (hchannels : 0 < channels)
    (hover : 2 ^ 31 < src.rows + center) :
    passY gaussianArray center channels temp src = none := by
  have hlast : src.rows - 1 < src.rows := by omega
  refine forEachSample_eq_none hlast hcols hchannels ?_ src
  intro mat
  have hsum : sumY gaussianArray center channels mat temp (src.rows - 1) 0 0 =
      none := tapSum_eq_none gaussianArray _ (by omega)
  rw [hsum]
  rfl

theorem blur_eq_none {src : Mat} {kernelSize : ℕ}
    (hfit : ¬IndicesFit src.rows src.cols src.channels (kernelSize / 2)) :
    blur src kernelSize gaussianArray = none := by
  unfold IndicesFit at hfit
  simp only [not_or] at hfit
  rcases hfit with ⟨hrows, hcols, hchannels, hover⟩
  unfold blur
  simp only
  by_cases hwidth : src.cols + kernelSize / 2 ≤ 2 ^ 31
  · by_cases hindex : src.cols * src.channels ≤ 2 ^ 31
    · have hheight : 2 ^ 31 < src.rows + kernelSize / 2 := by omega
      cases passX gaussianArray (kernelSize / 2) src.channels src with
      | none => rfl
      | some temp =>
          exact passY_eq_none (by omega) (by omega) (by omega) hheight
    · rw [@passX_eq_none gaussianArray (kernelSize / 2) src.channels src
        (src.cols - 1) (src.channels - 1) (by omega) (by omega) (by omega)
        (Or.inr (sampleIndex_eq_none (by omega) (by omega) (by omega)))]
      rfl
  · rw [@passX_eq_none gaussianArray (kernelSize / 2) src.channels src
      (src.cols - 1) 0 (by omega) (by omega) (by omega) (Or.inl (by omega))]
    rfl

end Passes

/-! ## The sum over both directions -/

section FullSum

variable {gaussianArray : ℕ → ℚ} {center channels : ℕ}

/-- The sum over both directions, with the product of the two weights; a tap
outside of the image in either direction is left out. -/
def fullSum (gaussianArray : ℕ → ℚ) (center : ℕ) (src : Mat) (i j c : ℕ) : ℚ :=
  ∑ t ∈ Finset.range (2 * center + 1), ∑ u ∈ Finset.range (2 * center + 1),
    if Outside center src.rows i t ∨ Outside center src.cols j u then 0
    else (src.ptr (tap center i t).toNat
        ((tap center j u).toNat * src.channels + c)).toNat *
      (gaussianArray t * gaussianArray u)

theorem fullSum_eq (src : Mat) (i j c : ℕ) :
    fullSum gaussianArray center src i j c =
      ∑ t ∈ Finset.range (2 * center + 1),
        tapValue center src.rows i
          (fun p => totalX gaussianArray center src.channels src p j c) t *
            gaussianArray t := by
  unfold fullSum
  apply Finset.sum_congr rfl
  intro t _
  by_cases hrow : Outside center src.rows i t
  · rw [tapValue_outside hrow, zero_mul]
    simp only [hrow, true_or, if_true, Finset.sum_const_zero]
  · rw [tapValue_inside hrow, totalX, tapTotal, Finset.sum_mul]
    apply Finset.sum_congr rfl
    intro u _
    simp only [hrow, false_or]
    by_cases hcolumn : Outside center src.cols j u
    · rw [tapValue_outside hcolumn, if_pos hcolumn, zero_mul, zero_mul]
    · rw [tapValue_inside hcolumn, if_neg hcolumn]
      ring

end FullSum

/-! ## What rounding takes off -/

theorem clamp_eq {sum : ℚ} (hnonneg : 0 ≤ sum) (hle : sum ≤ 255) :
    clamp sum = sum := by
  rw [clamp, min_eq_left hle, max_eq_left hnonneg]

theorem toUchar_toNat {value : ℚ} (hle : value ≤ 255) :
    (toUchar value).toNat = ⌊value⌋₊ := by
  have hfloor : ⌊value⌋₊ ≤ 255 := Nat.floor_le_of_le (by exact_mod_cast hle)
  unfold toUchar
  rw [UInt8.toNat_ofNat', Nat.mod_eq_of_lt (by omega)]

theorem toUchar_clamp {sum : ℚ} (hnonneg : 0 ≤ sum) (hle : sum ≤ 255) :
    ((toUchar (clamp sum)).toNat : ℚ) ≤ sum ∧
      sum - (toUchar (clamp sum)).toNat < 1 := by
  rw [clamp_eq hnonneg hle, toUchar_toNat hle]
  have hbelow := Nat.floor_le hnonneg
  have habove := Nat.lt_floor_add_one sum
  exact ⟨hbelow, by linarith⟩

section Bounds

variable {gaussianArray : ℕ → ℚ} {center : ℕ}
  (hkernel : IsKernel gaussianArray (2 * center + 1))

include hkernel

/-- A sum over 8-bit samples needs no clamping. -/
theorem sum_tapValue_bounds (size position : ℕ) (sample : ℕ → UInt8) :
    0 ≤ ∑ t ∈ Finset.range (2 * center + 1),
        tapValue center size position (fun p => (sample p).toNat) t *
          gaussianArray t ∧
      ∑ t ∈ Finset.range (2 * center + 1),
        tapValue center size position (fun p => (sample p).toNat) t *
          gaussianArray t ≤ 255 := by
  have hsample (p : ℕ) : ((sample p).toNat : ℚ) ≤ 255 := by
    have hlt := (sample p).toNat_lt
    have hle : (sample p).toNat ≤ 255 := by omega
    exact_mod_cast hle
  constructor
  · apply hkernel.sum_nonneg
    intro t _
    unfold tapValue
    split_ifs
    · exact le_rfl
    · exact Nat.cast_nonneg _
  · apply hkernel.sum_le
    intro t _
    unfold tapValue
    split_ifs
    · norm_num
    · exact hsample _

theorem totalX_bounds (channels : ℕ) (src : Mat) (i j c : ℕ) :
    0 ≤ totalX gaussianArray center channels src i j c ∧
      totalX gaussianArray center channels src i j c ≤ 255 :=
  sum_tapValue_bounds hkernel src.cols j fun q => src.ptr i (q * channels + c)

theorem totalY_bounds (channels rows : ℕ) (temp : Mat) (i j c : ℕ) :
    0 ≤ totalY gaussianArray center channels rows temp i j c ∧
      totalY gaussianArray center channels rows temp i j c ≤ 255 :=
  sum_tapValue_bounds hkernel rows i fun p => temp.ptr p (j * channels + c)

/-- The second sum over the rounded results of the first one. -/
theorem totalY_passX {src temp : Mat}
    (htemp : ∀ i < src.rows, ∀ j < src.cols, ∀ c < src.channels,
      temp.ptr i (j * src.channels + c) = toUchar (clamp
        (totalX gaussianArray center src.channels src i j c)))
    (i : ℕ) {j c : ℕ} (hj : j < src.cols) (hc : c < src.channels) :
    let total := totalY gaussianArray center src.channels src.rows temp i j c
    total ≤ fullSum gaussianArray center src i j c ∧
      fullSum gaussianArray center src i j c - total < 1 := by
  intro total
  have hloss (p : ℕ) := toUchar_clamp
    (totalX_bounds hkernel src.channels src p j c).1
    (totalX_bounds hkernel src.channels src p j c).2
  rw [fullSum_eq]
  apply hkernel.sum_sub
  · intro t _
    by_cases houtside : Outside center src.rows i t
    · rw [tapValue_outside houtside, tapValue_outside houtside]
    · rw [tapValue_inside houtside, tapValue_inside houtside,
        htemp _ (tap_toNat_lt houtside) j hj c hc]
      exact (hloss _).1
  · intro t _
    by_cases houtside : Outside center src.rows i t
    · rw [tapValue_outside houtside, tapValue_outside houtside, sub_zero]
      exact one_pos
    · rw [tapValue_inside houtside, tapValue_inside houtside,
        htemp _ (tap_toNat_lt houtside) j hj c hc]
      exact (hloss _).2

end Bounds

/-! ## The blurred image -/

/-- What is computed differs by less than two from the sum over both directions
and never exceeds it, and no value has to be clamped. -/
structure CloseAt (gaussianArray : ℕ → ℚ) (center : ℕ)
    (src temp blurred : Mat) (i j c : ℕ) : Prop where
  clampX : ∃ sum, sumX gaussianArray center src.channels src i j c = some sum ∧
    clamp sum = sum
  clampY : ∃ sum, sumY gaussianArray center src.channels src temp i j c =
    some sum ∧ clamp sum = sum
  le : ((blurred.ptr i (j * src.channels + c)).toNat : ℚ) ≤
    fullSum gaussianArray center src i j c
  sub_lt : fullSum gaussianArray center src i j c -
    (blurred.ptr i (j * src.channels + c)).toNat < 2

/-- The two passes run and come close at every sample. -/
def BlursClose (src : Mat) (kernelSize : ℕ) (gaussianArray : ℕ → ℚ) : Prop :=
  let center := kernelSize / 2
  ∃ temp blurred, passX gaussianArray center src.channels src = some temp ∧
    blur src kernelSize gaussianArray = some blurred ∧
    ∀ i < src.rows, ∀ j < src.cols, ∀ c < src.channels,
      CloseAt gaussianArray center src temp blurred i j c

theorem IndicesFit.bounds {rows cols channels center i j c : ℕ}
    (hfit : IndicesFit rows cols channels center) (hi : i < rows) (hj : j < cols)
    (hc : c < channels) :
    rows + center ≤ 2 ^ 31 ∧ cols + center ≤ 2 ^ 31 ∧
      cols * channels ≤ 2 ^ 31 := by
  unfold IndicesFit at hfit
  omega

/-- The passes with the sums that they compute. -/
theorem blur_eq_some (gaussianArray : ℕ → ℚ) {src : Mat} {kernelSize : ℕ}
    (hfit : IndicesFit src.rows src.cols src.channels (kernelSize / 2)) :
    let center := kernelSize / 2
    ∃ temp blurred, passX gaussianArray center src.channels src = some temp ∧
      blur src kernelSize gaussianArray = some blurred ∧
      (∀ i < src.rows, ∀ j < src.cols, ∀ c < src.channels,
        temp.ptr i (j * src.channels + c) = toUchar (clamp
          (totalX gaussianArray center src.channels src i j c))) ∧
      ∀ i < src.rows, ∀ j < src.cols, ∀ c < src.channels,
        blurred.ptr i (j * src.channels + c) = toUchar (clamp
          (totalY gaussianArray center src.channels src.rows temp i j c)) := by
  intro center
  by_cases hempty : src.rows = 0 ∨ src.cols = 0 ∨ src.channels = 0
  · have hX : passX gaussianArray center src.channels src = some src :=
      forEachSample_of_empty hempty _ src
    have hY : passY gaussianArray center src.channels src src = some src :=
      forEachSample_of_empty hempty _ src
    have hblur : blur src kernelSize gaussianArray = some src := by
      unfold blur
      simp only
      rw [hX]
      exact hY
    refine ⟨src, src, hX, hblur, ?_, ?_⟩ <;> intro i hi j hj c hc <;> omega
  · simp only [not_or] at hempty
    have hbounds := @IndicesFit.bounds _ _ _ _ 0 0 0 hfit (by omega) (by omega)
      (by omega)
    rcases hbounds with ⟨hrows, hcols, hindex⟩
    rcases @passX_eq_some gaussianArray center src.channels src hcols hindex with
      ⟨temp, hX, htemp⟩
    rcases @passY_eq_some gaussianArray center src.channels temp src hrows hindex
      with ⟨blurred, hY, hblurred⟩
    have hblur : blur src kernelSize gaussianArray = some blurred := by
      unfold blur
      simp only
      rw [hX]
      exact hY
    exact ⟨temp, blurred, hX, hblur, htemp, hblurred⟩

theorem blursClose_of_indicesFit {src : Mat} {kernelSize : ℕ}
    (hodd : kernelSize % 2 = 1) {gaussianArray : ℕ → ℚ}
    (hkernel : IsKernel gaussianArray kernelSize)
    (hfit : IndicesFit src.rows src.cols src.channels (kernelSize / 2)) :
    BlursClose src kernelSize gaussianArray := by
  have hsize : kernelSize = 2 * (kernelSize / 2) + 1 := by omega
  rw [hsize] at hkernel
  rcases blur_eq_some gaussianArray hfit with
    ⟨temp, blurred, hX, hblur, htemp, hblurred⟩
  refine ⟨temp, blurred, hX, hblur, ?_⟩
  intro i hi j hj c hc
  rcases hfit.bounds hi hj hc with ⟨hrows, hcols, hindex⟩
  have hx := totalX_bounds hkernel src.channels src i j c
  have hy := totalY_bounds hkernel src.channels src.rows temp i j c
  have hfirst := totalY_passX hkernel htemp i hj hc
  have hlast := toUchar_clamp hy.1 hy.2
  rw [← hblurred i hi j hj c hc] at hlast
  exact
    { clampX := ⟨_, sumX_eq hj hc hcols hindex, clamp_eq hx.1 hx.2⟩
      clampY := ⟨_, sumY_eq hi hj hc hrows hindex, clamp_eq hy.1 hy.2⟩
      le := hlast.1.trans hfirst.1
      sub_lt := by linarith [hfirst.2, hlast.2] }

/-- The blur is close for every image and kernel whose indices fit, and
undefined for all others. -/
theorem blursClose_iff (src : Mat) {kernelSize : ℕ}
    (hodd : kernelSize % 2 = 1) {gaussianArray : ℕ → ℚ}
    (hkernel : IsKernel gaussianArray kernelSize) :
    BlursClose src kernelSize gaussianArray ↔
      IndicesFit src.rows src.cols src.channels (kernelSize / 2) := by
  constructor
  · rintro ⟨_, blurred, _, hblur, _⟩
    by_contra hfit
    rw [blur_eq_none hfit] at hblur
    cases hblur
  · exact blursClose_of_indicesFit hodd hkernel

theorem blursClose_iff_pair :
    let src : Mat := ⟨1, 2, 1, fun _ j => if j = 0 then 255 else 100⟩
    let weights : ℕ → ℚ := fun t => if t = 1 then 1 / 2 else 1 / 4
    IsKernel weights 3 ∧ BlursClose src 3 weights := by
  intro src weights
  have hkernel : IsKernel weights 3 := by
    constructor
    · intro t _
      simp only [weights]
      split_ifs <;> norm_num
    · norm_num [weights, Finset.sum_range_succ]
  have hfit : IndicesFit 1 2 1 (3 / 2) :=
    Or.inr (Or.inr (Or.inr (by decide)))
  exact ⟨hkernel, (blursClose_iff src (by decide) hkernel).mpr hfit⟩

/-- A row of four channels whose last index is not in the range of `int`. -/
theorem not_blursClose_wide :
    ¬∀ (src : Mat) (kernelSize : ℕ) (gaussianArray : ℕ → ℚ),
      kernelSize % 2 = 1 → IsKernel gaussianArray kernelSize →
        BlursClose src kernelSize gaussianArray := by
  intro hall
  have hkernel : IsKernel (fun _ : ℕ => (1 : ℚ)) 1 :=
    ⟨fun _ _ => zero_le_one, by simp⟩
  rcases hall ⟨1, 2 ^ 29 + 1, 4, fun _ _ => 0⟩ 1 _ (by decide) hkernel with
    ⟨_, blurred, _, hblur, _⟩
  have hfit : ¬IndicesFit 1 (2 ^ 29 + 1) 4 (1 / 2) := by
    unfold IndicesFit
    omega
  rw [blur_eq_none hfit] at hblur
  cases hblur

/-! ## The weights of the array -/

/-- The weight of an element before the division. -/
def elementValue (exp : ℚ → ℚ) (arrSize : ℕ) (sigma : ℚ) (i : ℕ) : ℚ :=
  1 / pi * (2 * sigma * sigma) *
    exp (-1 * ((((i : ℤ) - arrSize / 2) * ((i : ℤ) - arrSize / 2) : ℤ) /
      (2 * sigma * sigma)))

theorem elementValue_pos {exp : ℚ → ℚ} (hexp : ∀ x, 0 < exp x) (arrSize : ℕ)
    {sigma : ℚ} (hsigma : sigma ≠ 0) (i : ℕ) :
    0 < elementValue exp arrSize sigma i := by
  have hsquare : 0 < 2 * sigma * sigma := by
    rw [mul_assoc]
    exact mul_pos two_pos (mul_self_pos.mpr hsigma)
  have hpi : (0 : ℚ) < 1 / pi := by norm_num [pi]
  exact mul_pos (mul_pos hpi hsquare) (hexp _)

theorem gaussianElement_eq (exp : ℚ → ℚ) {arrSize : ℕ} (hsize : arrSize ≤ 92681)
    (sigma : ℚ) {i : ℕ} (hi : i < arrSize) :
    gaussianElement exp arrSize sigma i =
      some (elementValue exp arrSize sigma i) := by
  have hlow : -46340 ≤ (i : ℤ) - arrSize / 2 := by omega
  have hhigh : (i : ℤ) - arrSize / 2 ≤ 46340 := by omega
  have hfits : Fits (((i : ℤ) - arrSize / 2) * ((i : ℤ) - arrSize / 2)) := by
    constructor <;> nlinarith
  unfold gaussianElement elementValue
  simp only [checked_of_fits hfits, Option.bind_eq_bind, Option.bind_some]
  rfl

theorem isKernel_getGaussianArray {exp : ℚ → ℚ} (hexp : ∀ x, 0 < exp x)
    {arrSize : ℕ} (hpositive : 0 < arrSize) (hsize : arrSize ≤ 92681) {sigma : ℚ}
    (hsigma : sigma ≠ 0) :
    ∃ gaussianArray, getGaussianArray exp arrSize sigma = some gaussianArray ∧
      IsKernel gaussianArray arrSize := by
  let value := elementValue exp arrSize sigma
  have helements := @mapM_eq_some_map _ _ (List.range arrSize) _ _ fun i hi =>
    gaussianElement_eq exp hsize sigma (List.mem_range.mp hi)
  have hsum : ((List.range arrSize).map value).foldl (· + ·) 0 =
      ∑ t ∈ Finset.range arrSize, value t := by
    rw [List.foldl_map, foldl_add_range]
  have hget (i : ℕ) (hi : i < arrSize) :
      ((List.range arrSize).map value).getD i 0 = value i := by
    simp [List.getD_eq_getElem?_getD, hi]
  refine ⟨fun i => ((List.range arrSize).map value).getD i 0 /
    ((List.range arrSize).map value).foldl (· + ·) 0, ?_, ?_⟩
  · unfold getGaussianArray
    rw [helements]
    rfl
  · have hkernel := isKernel_div_sum hpositive
      fun t (_ : t < arrSize) => elementValue_pos hexp arrSize hsigma t
    rw [hsum]
    constructor
    · intro t ht
      rw [hget t ht]
      exact hkernel.nonneg t ht
    · rw [← hkernel.sum_eq]
      apply Finset.sum_congr rfl
      intro t ht
      rw [hget t (Finset.mem_range.mp ht)]

/-- From the size 92682 on the square at the end of the array overflows. -/
theorem gaussian_close {exp : ℚ → ℚ} (hexp : ∀ x, 0 < exp x) (src : Mat)
    {kernelSize : ℕ} (hodd : kernelSize % 2 = 1) (hsize : kernelSize ≤ 92681)
    {sigma : ℚ} (hsigma : sigma ≠ 0)
    (hfit : IndicesFit src.rows src.cols src.channels (kernelSize / 2)) :
    ∃ gaussianArray blurred,
      getGaussianArray exp kernelSize sigma = some gaussianArray ∧
      gaussian exp src kernelSize sigma = some blurred ∧
      blur src kernelSize gaussianArray = some blurred ∧
      BlursClose src kernelSize gaussianArray := by
  rcases isKernel_getGaussianArray hexp (by omega) hsize hsigma with
    ⟨gaussianArray, harray, hkernel⟩
  have hclose := blursClose_of_indicesFit hodd hkernel hfit
  rcases hclose with ⟨temp, blurred, hX, hblur, hall⟩
  refine ⟨gaussianArray, blurred, harray, ?_, hblur, temp, blurred, hX, hblur,
    hall⟩
  unfold gaussian
  rw [harray]
  exact hblur

end Miscellaneous.GaussianBlur
