import Miscellaneous.GaussianBlur

/-!
# The accesses of the blur

The numbers of type `int` that `gaussian` computes, and the positions at which
it reads and writes the array of weights and the two images, in the order of its
loops.  The guards of the passes keep every sample inside of the image.  The
array has `kernelSize` elements, and the taps from `-center` to `center` are one
more than that when `kernelSize` is even.
-/

namespace Miscellaneous.GaussianBlur

open CInts

/-- A number which is no index, an index into `gaussianArray`, or a sample of
`src` or of `temp` by its row, its column and its index in the row. -/
inductive Access where
  | number (value : ℤ)
  | weight (index : ℤ)
  | src (i j index : ℤ)
  | temp (i j index : ℤ)
  deriving DecidableEq

/-- What is computed is in the range of `int`. -/
def Access.Computed : Access → Prop
  | .number value => Fits value
  | .weight _ => True
  | .src _ _ index | .temp _ _ index => Fits index

/-- Inside of an array with `kernelSize` elements, or inside of the image. -/
def Access.Inside (kernelSize rows cols channels : ℕ) : Access → Prop
  | .number _ => True
  | .weight index => 0 ≤ index ∧ index < kernelSize
  | .src i j index | .temp i j index =>
      0 ≤ i ∧ i < rows ∧ 0 ≤ j ∧ j < cols ∧ 0 ≤ index ∧
        index < (cols * channels : ℕ)

def Access.InRange (kernelSize rows cols channels : ℕ) (access : Access) :
    Prop :=
  access.Computed ∧ access.Inside kernelSize rows cols channels

/-- The loop over `k`; `sample` accesses the sample of a tap. -/
def tapAccesses (center size position : ℕ) (sample : ℤ → List Access) :
    List Access :=
  (List.range (2 * center + 1)).flatMap fun (t : ℕ) =>
    let k : ℤ := t - center
    .number (position + k) ::
      if position + k < 0 ∨ position + k ≥ size then []
      else sample (position + k) ++ [.weight (k + center)]

/-- The turn of the first pass for a sample. -/
def accessesX (center cols channels i j c : ℕ) : List Access :=
  tapAccesses center cols j
      (fun column => [.number (column * channels),
        .src i column (column * channels + c)]) ++
    [.number (j * channels), .temp i j (j * channels + c)]

def accessesY (center rows channels i j c : ℕ) : List Access :=
  tapAccesses center rows i
      (fun row => [.number (j * channels), .temp row j (j * channels + c)]) ++
    [.number (j * channels), .src i j (j * channels + c)]

/-- The accesses of `gaussian` to an image of this size. -/
def accesses (kernelSize rows cols channels : ℕ) : List Access :=
  let center := kernelSize / 2
  ((samples rows cols channels).flatMap fun sample =>
      accessesX center cols channels sample.1 sample.2.1 sample.2.2) ++
    (samples rows cols channels).flatMap fun sample =>
      accessesY center rows channels sample.1 sample.2.1 sample.2.2

theorem forall_accesses (kernelSize rows cols channels : ℕ)
    (P : Access → Prop) :
    (∀ access ∈ accesses kernelSize rows cols channels, P access) ↔
      ∀ i < rows, ∀ j < cols, ∀ c < channels,
        (∀ access ∈ accessesX (kernelSize / 2) cols channels i j c, P access) ∧
          ∀ access ∈ accessesY (kernelSize / 2) rows channels i j c,
            P access := by
  unfold accesses
  simp only [List.mem_append, List.mem_flatMap]
  constructor
  · intro hall i hi j hj c hc
    have hsample : (i, j, c) ∈ samples rows cols channels :=
      mem_samples.mpr ⟨hi, hj, hc⟩
    exact ⟨fun access haccess => hall access (Or.inl ⟨_, hsample, haccess⟩),
      fun access haccess => hall access (Or.inr ⟨_, hsample, haccess⟩)⟩
  · rintro hall access (⟨⟨i, j, c⟩, hsample, haccess⟩ |
      ⟨⟨i, j, c⟩, hsample, haccess⟩)
    · have hbounds := mem_samples.mp hsample
      exact (hall i hbounds.1 j hbounds.2.1 c hbounds.2.2).1 access haccess
    · have hbounds := mem_samples.mp hsample
      exact (hall i hbounds.1 j hbounds.2.1 c hbounds.2.2).2 access haccess

/-- The guard lets the taps inside of the image through. -/
theorem mem_tapAccesses {center size position : ℕ} {sample : ℤ → List Access}
    {access : Access} :
    access ∈ tapAccesses center size position sample ↔
      ∃ t ≤ 2 * center, access = .number (tap center position t) ∨
        ¬Outside center size position t ∧
          (access ∈ sample (tap center position t) ∨ access = .weight t) := by
  have hturns : tapAccesses center size position sample =
      (List.range (2 * center + 1)).flatMap fun t =>
        .number (tap center position t) ::
          if Outside center size position t then []
          else sample (tap center position t) ++ [.weight t] := by
    have hindex (t : ℕ) : ((t : ℤ) - center) + center = t := by omega
    unfold tapAccesses
    simp only [hindex]
    rfl
  rw [hturns, List.mem_flatMap]
  refine exists_congr fun t => ?_
  rw [List.mem_range, Nat.lt_succ_iff, List.mem_cons]
  refine and_congr_right fun _ => or_congr_right ?_
  by_cases houtside : Outside center size position t
  · simp [houtside]
  · simp [houtside]

theorem forall_tapAccesses (center size position : ℕ)
    (sample : ℤ → List Access) (P : Access → Prop) :
    (∀ access ∈ tapAccesses center size position sample, P access) ↔
      ∀ t ≤ 2 * center,
        P (.number (tap center position t)) ∧
          (¬Outside center size position t →
            (∀ access ∈ sample (tap center position t), P access) ∧
              P (.weight t)) := by
  simp only [mem_tapAccesses]
  constructor
  · intro hall t ht
    exact ⟨hall _ ⟨t, ht, Or.inl rfl⟩, fun hinside =>
      ⟨fun access haccess => hall access ⟨t, ht, Or.inr ⟨hinside, .inl haccess⟩⟩,
        hall _ ⟨t, ht, Or.inr ⟨hinside, .inr rfl⟩⟩⟩⟩
  · rintro hall access ⟨t, ht, rfl | ⟨hinside, haccess | rfl⟩⟩
    · exact (hall t ht).1
    · exact ((hall t ht).2 hinside).1 access haccess
    · exact ((hall t ht).2 hinside).2

/-! ## Overflow -/

/-- The loop computes its largest number before it compares it. -/
theorem computed_tapAccesses_iff {center size position : ℕ}
    {sample : ℤ → List Access}
    (hsample : ∀ q : ℕ, q < size → ∀ access ∈ sample q, access.Computed) :
    (∀ access ∈ tapAccesses center size position sample, access.Computed) ↔
      position + center < 2 ^ 31 := by
  rw [forall_tapAccesses]
  constructor
  · intro hall
    have hlast : Fits (tap center position (2 * center)) :=
      (hall (2 * center) le_rfl).1
    unfold Fits tap at hlast
    omega
  · intro hfit t ht
    refine ⟨?_, fun hinside => ⟨?_, trivial⟩⟩
    · have htap : Fits (tap center position t) := by
        unfold Fits tap
        omega
      exact htap
    · have hlt := tap_toNat_lt hinside
      have hcast : ((tap center position t).toNat : ℤ) =
          tap center position t := by
        unfold Outside at hinside
        omega
      rw [← hcast]
      exact hsample _ hlt

section Computed

variable {rows cols channels i j c : ℕ}

theorem fits_offset (hj : j < cols) (hc : c < channels)
    (hindex : cols * channels ≤ 2 ^ 31) :
    Fits ((j : ℤ) * channels) ∧ Fits ((j : ℤ) * channels + c) := by
  have hlt := offset_lt hj hc
  rw [← Nat.cast_mul, ← Nat.cast_add]
  constructor <;> unfold Fits <;> omega

theorem computed_accessesX_iff {center : ℕ} (hj : j < cols) (hc : c < channels)
    (hindex : cols * channels ≤ 2 ^ 31) :
    (∀ access ∈ accessesX center cols channels i j c, access.Computed) ↔
      j + center < 2 ^ 31 := by
  have hsample (q : ℕ) (hq : q < cols) := fits_offset hq hc hindex
  rw [← @computed_tapAccesses_iff center cols j (fun column =>
    [.number (column * channels), .src i column (column * channels + c)])]
  · unfold accessesX
    simp [or_imp, forall_and, Access.Computed, hsample j hj]
  · intro q hq access haccess
    simp only [List.mem_cons, List.not_mem_nil, or_false] at haccess
    rcases haccess with rfl | rfl
    · exact (hsample q hq).1
    · exact (hsample q hq).2

theorem computed_accessesY_iff {center : ℕ} (hj : j < cols) (hc : c < channels)
    (hindex : cols * channels ≤ 2 ^ 31) :
    (∀ access ∈ accessesY center rows channels i j c, access.Computed) ↔
      i + center < 2 ^ 31 := by
  have hoffset := fits_offset hj hc hindex
  rw [← @computed_tapAccesses_iff center rows i (fun row =>
    [.number (j * channels), .temp row j (j * channels + c)])]
  · unfold accessesY
    simp [or_imp, forall_and, Access.Computed, hoffset]
  · intro q _ access haccess
    simp only [List.mem_cons, List.not_mem_nil, or_false] at haccess
    rcases haccess with rfl | rfl
    · exact hoffset.1
    · exact hoffset.2

end Computed

/-- All numbers are in the range of `int` exactly when the passes run. -/
theorem computed_accesses_iff (kernelSize rows cols channels : ℕ) :
    (∀ access ∈ accesses kernelSize rows cols channels, access.Computed) ↔
      IndicesFit rows cols channels (kernelSize / 2) := by
  rw [forall_accesses]
  unfold IndicesFit
  constructor
  · intro hall
    by_contra hcontra
    simp only [not_or] at hcontra
    rcases hcontra with ⟨hrows, hcols, hchannels, hover⟩
    have hlast := hall (rows - 1) (by omega) (cols - 1) (by omega)
      (channels - 1) (by omega)
    have hoffset := @last_offset cols channels (by omega) (by omega)
    have htemp : Fits (((cols - 1 : ℕ) : ℤ) * channels +
        ((channels - 1 : ℕ) : ℤ)) :=
      hlast.1 (.temp _ _ _) (List.mem_append_right _ (.tail _ (.head _)))
    rw [← Nat.cast_mul, ← Nat.cast_add] at htemp
    have hindex : cols * channels ≤ 2 ^ 31 := by
      unfold Fits at htemp
      omega
    have hx := (computed_accessesX_iff (by omega) (by omega) hindex).mp hlast.1
    have hy := (computed_accessesY_iff (by omega) (by omega) hindex).mp hlast.2
    omega
  · intro hfit i hi j hj c hc
    have hbounds : rows + kernelSize / 2 ≤ 2 ^ 31 ∧
        cols + kernelSize / 2 ≤ 2 ^ 31 ∧ cols * channels ≤ 2 ^ 31 := by
      omega
    exact ⟨(computed_accessesX_iff hj hc hbounds.2.2).mpr (by omega),
      (computed_accessesY_iff hj hc hbounds.2.2).mpr (by omega)⟩

/-- The passes run exactly when every number that they compute fits. -/
theorem blur_isSome_iff (src : Mat) (kernelSize : ℕ) (gaussianArray : ℕ → ℚ) :
    (blur src kernelSize gaussianArray).isSome ↔
      ∀ access ∈ accesses kernelSize src.rows src.cols src.channels,
        access.Computed := by
  rw [computed_accesses_iff]
  constructor
  · intro hsome
    by_contra hfit
    rw [blur_eq_none hfit] at hsome
    cases hsome
  · intro hfit
    rcases blur_eq_some gaussianArray hfit with ⟨_, blurred, _, hblur, _⟩
    rw [hblur]
    rfl

/-! ## Which accesses are inside -/

/-- The last tap is the one that an array of even size does not have.  It is
evaluated where the image reaches as far as `center` behind the position. -/
theorem inside_tapAccesses_iff {kernelSize rows cols channels : ℕ}
    {size position : ℕ} {sample : ℤ → List Access}
    (hsample : ∀ q : ℕ, q < size → ∀ access ∈ sample q,
      access.Inside kernelSize rows cols channels) :
    (∀ access ∈ tapAccesses (kernelSize / 2) size position sample,
        access.Inside kernelSize rows cols channels) ↔
      kernelSize % 2 = 1 ∨ size ≤ position + kernelSize / 2 := by
  rw [forall_tapAccesses]
  constructor
  · intro hall
    by_contra hcontra
    have hinside : ¬Outside (kernelSize / 2) size position
        (2 * (kernelSize / 2)) := by
      unfold Outside tap
      omega
    have hlast := ((hall (2 * (kernelSize / 2)) le_rfl).2 hinside).2.2
    omega
  · intro hcondition t ht
    refine ⟨trivial, fun hinside => ⟨?_, ?_⟩⟩
    · have hlt := tap_toNat_lt hinside
      have hcast : ((tap (kernelSize / 2) position t).toNat : ℤ) =
          tap (kernelSize / 2) position t := by
        unfold Outside at hinside
        omega
      rw [← hcast]
      exact hsample _ hlt
    · unfold Outside tap at hinside
      constructor <;> omega

section Inside

variable {kernelSize rows cols channels i j c : ℕ} (hi : i < rows)
  (hj : j < cols) (hc : c < channels)

include hi hj hc

theorem inside_sample :
    (Access.temp i j ((j : ℤ) * channels + c)).Inside kernelSize rows cols
      channels := by
  have hlt := offset_lt hj hc
  refine ⟨by omega, by omega, by omega, by omega, ?_⟩
  rw [← Nat.cast_mul, ← Nat.cast_add]
  constructor <;> omega

theorem inside_accessesX_iff :
    (∀ access ∈ accessesX (kernelSize / 2) cols channels i j c,
        access.Inside kernelSize rows cols channels) ↔
      kernelSize % 2 = 1 ∨ cols ≤ j + kernelSize / 2 := by
  have hsample (q : ℕ) (hq : q < cols) :=
    @inside_sample kernelSize rows cols channels i q c hi hq hc
  rw [← @inside_tapAccesses_iff kernelSize rows cols channels cols j
    (fun column => [.number (column * channels),
      .src i column (column * channels + c)])]
  · unfold accessesX
    simp only [List.mem_append, or_imp, forall_and, List.mem_cons,
      List.not_mem_nil, or_false, forall_eq]
    exact and_iff_left ⟨trivial, hsample j hj⟩
  · intro q hq access haccess
    simp only [List.mem_cons, List.not_mem_nil, or_false] at haccess
    rcases haccess with rfl | rfl
    · trivial
    · exact hsample q hq

theorem inside_accessesY_iff :
    (∀ access ∈ accessesY (kernelSize / 2) rows channels i j c,
        access.Inside kernelSize rows cols channels) ↔
      kernelSize % 2 = 1 ∨ rows ≤ i + kernelSize / 2 := by
  have hsample (q : ℕ) (hq : q < rows) :=
    @inside_sample kernelSize rows cols channels q j c hq hj hc
  rw [← @inside_tapAccesses_iff kernelSize rows cols channels rows i
    (fun row => [.number (j * channels), .temp row j (j * channels + c)])]
  · unfold accessesY
    simp only [List.mem_append, or_imp, forall_and, List.mem_cons,
      List.not_mem_nil, or_false, forall_eq]
    exact and_iff_left ⟨trivial, hsample i hi⟩
  · intro q hq access haccess
    simp only [List.mem_cons, List.not_mem_nil, or_false] at haccess
    rcases haccess with rfl | rfl
    · trivial
    · exact hsample q hq

end Inside

/-- An array of odd size is never left.  One of even size is left at the first
column or at the first row, unless the image is empty or no larger than
`center` in both directions. -/
theorem inside_accesses_iff (kernelSize rows cols channels : ℕ) :
    (∀ access ∈ accesses kernelSize rows cols channels,
        access.Inside kernelSize rows cols channels) ↔
      kernelSize % 2 = 1 ∨ rows = 0 ∨ cols = 0 ∨ channels = 0 ∨
        (rows ≤ kernelSize / 2 ∧ cols ≤ kernelSize / 2) := by
  rw [forall_accesses]
  constructor
  · intro hall
    by_contra hcontra
    have hfirst := hall 0 (by omega) 0 (by omega) 0 (by omega)
    have hx := (inside_accessesX_iff (by omega) (by omega) (by omega)).mp
      hfirst.1
    have hy := (inside_accessesY_iff (by omega) (by omega) (by omega)).mp
      hfirst.2
    omega
  · intro hcondition i hi j hj c hc
    exact ⟨(inside_accessesX_iff hi hj hc).mpr (by omega),
      (inside_accessesY_iff hi hj hc).mpr (by omega)⟩

/-- Nothing overflows and the array is not left. -/
theorem accesses_inRange_iff (kernelSize rows cols channels : ℕ) :
    (∀ access ∈ accesses kernelSize rows cols channels,
        access.InRange kernelSize rows cols channels) ↔
      IndicesFit rows cols channels (kernelSize / 2) ∧
        (kernelSize % 2 = 1 ∨ rows = 0 ∨ cols = 0 ∨ channels = 0 ∨
          (rows ≤ kernelSize / 2 ∧ cols ≤ kernelSize / 2)) := by
  unfold Access.InRange
  rw [← computed_accesses_iff, ← inside_accesses_iff]
  exact ⟨fun hall => ⟨fun access haccess => (hall access haccess).1,
      fun access haccess => (hall access haccess).2⟩,
    fun hall access haccess => ⟨hall.1 access haccess, hall.2 access haccess⟩⟩

theorem accesses_leave_array :
    ¬∀ kernelSize ≥ 1, ∀ rows cols channels : ℕ,
      ∀ access ∈ accesses kernelSize rows cols channels,
        access.InRange kernelSize rows cols channels := by
  intro hall
  have hlast := (hall 2 (by decide) 1 2 1 (.weight 2) (by decide)).2.2
  exact absurd hlast (by decide)

end Miscellaneous.GaussianBlur
