import Miscellaneous.Triangle

/-!
# Along the edges of a triangle

Even if nothing is rounded, the ends of the spans stay on the edges of a half
only if each edge has a whole number of columns per scanline: the slope is the
quotient of two numbers of type `int`.  The conversions of these to `float` are
taken as exact as well; they are for numbers up to `2 ^ 24`.
-/

namespace Miscellaneous.Triangle

open CInts

def edgeX (source target : Vec2i) (y : ℤ) : ℚ :=
  source.x + (y - source.y) * (target.x - source.x) / (target.y - source.y)

def OnEdges (edge1 edge2 : ℤ → ℚ) (spans : List (Span ℚ)) : Prop :=
  ∀ span ∈ spans, span.curx1 = edge1 span.scanlineY ∧
    span.curx2 = edge2 span.scanlineY

/-- From `v1` along the edges to `v2` and `v3`, and down to these. -/
def FollowsEdgesDown (v1 v2 v3 : Vec2i)
    (drawn : Except Fault (List (Span ℚ))) : Prop :=
  ∃ spans, drawn = .ok spans ∧ OnEdges (edgeX v1 v2) (edgeX v1 v3) spans ∧
    spans.getLast? = some ⟨v2.y, v2.x, v3.x⟩

/-- From `v3` along the edges to `v1` and `v2`. -/
def FollowsEdgesUp (v1 v2 v3 : Vec2i)
    (drawn : Except Fault (List (Span ℚ))) : Prop :=
  ∃ spans, drawn = .ok spans ∧ OnEdges (edgeX v1 v3) (edgeX v2 v3) spans ∧
    spans.head? = some ⟨v3.y, v3.x, v3.x⟩

/-- A whole number of columns per scanline. -/
def WholeSlope (source target : Vec2i) : Prop :=
  target.y - source.y ∣ target.x - source.x

instance (source target : Vec2i) : Decidable (WholeSlope source target) :=
  inferInstanceAs (Decidable (target.y - source.y ∣ target.x - source.x))

/-! ## One edge -/

section Edge

variable {source target : Vec2i}

theorem height_ne_zero (hlt : source.y < target.y) :
    (target.y - source.y : ℚ) ≠ 0 := by
  have hcast : (source.y : ℚ) < target.y := Int.cast_lt.mpr hlt
  exact (sub_pos.mpr hcast).ne'

theorem edgeX_target (hlt : source.y < target.y) :
    edgeX source target target.y = target.x := by
  unfold edgeX
  rw [mul_div_cancel_left₀ _ (height_ne_zero hlt)]
  ring

theorem edgeX_eq_from_target (hlt : source.y < target.y) (y : ℤ) :
    edgeX source target y = target.x +
      (y - target.y) * (target.x - source.x) / (target.y - source.y) := by
  have hheight := @height_ne_zero source target hlt
  unfold edgeX
  field_simp
  ring

/-- One step with the truncated slope stays on the line only if nothing was
truncated. -/
theorem slope_eq_iff (hlt : source.y < target.y) :
    (slope source target : ℚ) =
      (target.x - source.x) / (target.y - source.y) ↔
        WholeSlope source target := by
  have hne : target.y - source.y ≠ 0 := by omega
  have hexact := tdiv_cast_eq_iff (n := target.x - source.x) hne
  push_cast at hexact
  exact hexact

/-- `n` scanlines down from the upper end.  The second decides. -/
theorem follows_down_iff (hlt : source.y < target.y) {n : ℕ} (hn : 1 < n) :
    (∀ k < n, (source.x + (k : ℕ) * slope source target : ℚ) =
        edgeX source target (source.y + k)) ↔ WholeSlope source target := by
  rw [← slope_eq_iff hlt]
  unfold edgeX
  push_cast
  constructor
  · intro hfollows
    have hstep := hfollows 1 hn
    simp only [Nat.cast_one, one_mul, add_sub_cancel_left] at hstep
    linarith
  · intro hslope k _
    rw [hslope]
    ring

theorem follows_up_iff (hlt : source.y < target.y) {n : ℕ}
    (hn : (n : ℤ) = target.y - source.y) :
    (∀ k < n, (target.x - (k : ℕ) * slope source target : ℚ) =
        edgeX source target (target.y - k)) ↔ WholeSlope source target := by
  simp only [edgeX_eq_from_target hlt]
  push_cast
  constructor
  · intro hfollows
    by_cases hone : 1 < n
    · rw [← slope_eq_iff hlt]
      have hstep := hfollows 1 hone
      simp only [Nat.cast_one, one_mul] at hstep
      linear_combination -hstep
    · have hunit : target.y - source.y = 1 := by omega
      rw [WholeSlope, hunit]
      exact one_dvd _
  · intro hwhole k _
    rw [(slope_eq_iff hlt).mpr hwhole]
    ring

end Edge

/-! ## The halves -/

theorem onEdges_walk_iff (edge1 edge2 : ℤ → ℚ) (direction : ℤ)
    (next1 next2 : ℚ → ℚ) (n : ℕ) (y : ℤ) (x1 x2 : ℚ) :
    OnEdges edge1 edge2 (walk direction next1 next2 n y x1 x2) ↔
      (∀ k < n, next1^[k] x1 = edge1 (y + direction * (k : ℕ))) ∧
        ∀ k < n, next2^[k] x2 = edge2 (y + direction * (k : ℕ)) := by
  unfold OnEdges walk
  simp only [List.mem_map, List.mem_range, forall_exists_index, and_imp,
    forall_apply_eq_imp_iff₂]
  exact forall₂_and

theorem getLast?_walk (direction : ℤ) (next1 next2 : ℚ → ℚ) (n : ℕ) (y : ℤ)
    (x1 x2 : ℚ) :
    (walk direction next1 next2 (n + 1) y x1 x2).getLast? =
      some ⟨y + direction * n, next1^[n] x1, next2^[n] x2⟩ := by
  unfold walk
  rw [List.getLast?_map, List.getLast?_range, if_neg n.succ_ne_zero]
  rfl

theorem add_slope_iterate (slope x : ℤ) (k : ℕ) :
    (exactFloat.add · (exactFloat.ofInt slope))^[k] (exactFloat.ofInt x) =
      x + k * slope := by
  simp only [exactFloat]
  rw [add_right_iterate, nsmul_eq_mul]

theorem sub_slope_iterate (slope x : ℤ) (k : ℕ) :
    (exactFloat.sub · (exactFloat.ofInt slope))^[k] (exactFloat.ofInt x) =
      x - k * slope := by
  simp only [exactFloat, sub_eq_add_neg]
  rw [add_right_iterate, nsmul_eq_mul, mul_neg]

theorem onEdges_bottomSpans_iff {v1 v2 v3 : Vec2i} (hlt : v1.y < v2.y)
    (hflat : v2.y = v3.y) :
    OnEdges (edgeX v1 v2) (edgeX v1 v3) (bottomSpans exactFloat v1 v2 v3) ↔
      WholeSlope v1 v2 ∧ WholeSlope v1 v3 := by
  have hcount : 1 < (v2.y - v1.y + 1).toNat := by omega
  unfold bottomSpans
  simp only [onEdges_walk_iff, add_slope_iterate, one_mul]
  rw [follows_down_iff hlt hcount, follows_down_iff (hflat ▸ hlt) hcount]

theorem onEdges_topSpans_iff {v1 v2 v3 : Vec2i} (hflat : v1.y = v2.y)
    (hlt : v2.y < v3.y) :
    OnEdges (edgeX v1 v3) (edgeX v2 v3) (topSpans exactFloat v1 v2 v3) ↔
      WholeSlope v1 v3 ∧ WholeSlope v2 v3 := by
  unfold topSpans
  simp only [onEdges_walk_iff, sub_slope_iterate, neg_one_mul,
    ← sub_eq_add_neg]
  rw [follows_up_iff (by omega) (by omega), follows_up_iff hlt (by omega)]

/-- Down to the lower vertices exactly when both slopes are whole, and no
operation on `int` overflows. -/
theorem followsEdgesDown_iff {v1 v2 v3 : Vec2i} (hlt : v1.y < v2.y)
    (hflat : v2.y = v3.y) :
    FollowsEdgesDown v1 v2 v3 (fillBottomFlatTriangle exactFloat v1 v2 v3) ↔
      (WholeSlope v1 v2 ∧ WholeSlope v1 v3) ∧ BottomFits v1 v2 v3 := by
  have hlt3 : v1.y < v3.y := hflat ▸ hlt
  rw [fillBottomFlatTriangle_of_lt exactFloat hlt hlt3,
    ← onEdges_bottomSpans_iff hlt hflat]
  constructor
  · rintro ⟨spans, hspans, hedges, _⟩
    split_ifs at hspans with hfits
    injection hspans with hspans
    exact ⟨hspans ▸ hedges, hfits⟩
  · rintro ⟨hedges, hfits⟩
    refine ⟨_, if_pos hfits, hedges, ?_⟩
    rcases Int.eq_ofNat_of_zero_le (sub_nonneg.mpr hlt.le) with ⟨n, hn⟩
    have hcount : (v2.y - v1.y + 1).toNat = n + 1 := by omega
    have hlast : v1.y + 1 * (n : ℤ) = v2.y := by omega
    unfold bottomSpans at hedges ⊢
    rw [hcount, onEdges_walk_iff] at hedges
    rw [hcount, getLast?_walk, hedges.1 n (by omega), hedges.2 n (by omega),
      hlast, edgeX_target hlt, hflat, edgeX_target hlt3]

theorem followsEdgesUp_iff {v1 v2 v3 : Vec2i} (hflat : v1.y = v2.y)
    (hlt : v2.y < v3.y) :
    FollowsEdgesUp v1 v2 v3 (fillTopFlatTriangle exactFloat v1 v2 v3) ↔
      (WholeSlope v1 v3 ∧ WholeSlope v2 v3) ∧ TopFits v1 v2 v3 := by
  have hlt1 : v1.y < v3.y := hflat ▸ hlt
  rw [fillTopFlatTriangle_of_lt exactFloat hlt1 hlt,
    ← onEdges_topSpans_iff hflat hlt]
  constructor
  · rintro ⟨spans, hspans, hedges, _⟩
    split_ifs at hspans with hfits
    injection hspans with hspans
    exact ⟨hspans ▸ hedges, hfits⟩
  · rintro ⟨hedges, hfits⟩
    refine ⟨_, if_pos hfits, hedges, ?_⟩
    have hcount : (v3.y - v1.y).toNat = (v3.y - v1.y - 1).toNat + 1 := by
      omega
    unfold topSpans
    rw [hcount, walk_succ]
    rfl

/-- Both halves, each from the vertex opposite to its flat side. -/
theorem followsEdges_iff (v1 v2 v3 : Vec2i) :
    (v1.y < v2.y → v2.y = v3.y →
      (FollowsEdgesDown v1 v2 v3 (fillBottomFlatTriangle exactFloat v1 v2 v3) ↔
        (WholeSlope v1 v2 ∧ WholeSlope v1 v3) ∧ BottomFits v1 v2 v3)) ∧
    (v1.y = v2.y → v2.y < v3.y →
      (FollowsEdgesUp v1 v2 v3 (fillTopFlatTriangle exactFloat v1 v2 v3) ↔
        (WholeSlope v1 v3 ∧ WholeSlope v2 v3) ∧ TopFits v1 v2 v3)) :=
  ⟨followsEdgesDown_iff, followsEdgesUp_iff⟩

def lowerRight : Vec2i := ⟨19, 19, mainC.x_fits, mainB.y_fits⟩

theorem followsEdges_main :
    FollowsEdgesDown mainA mainB lowerRight
        (fillBottomFlatTriangle exactFloat mainA mainB lowerRight) ∧
      FollowsEdgesUp mainA mainC mainB
        (fillTopFlatTriangle exactFloat mainA mainC mainB) := by
  constructor
  · refine ((followsEdges_iff _ _ _).1 ?_ ?_).mpr ?_ <;> decide
  · refine ((followsEdges_iff _ _ _).2 ?_ ?_).mpr ?_ <;> decide

def lowerMiddle : Vec2i := ⟨9, 19, by decide, mainB.y_fits⟩

/-- An edge with less than a column per scanline is drawn upright. -/
theorem not_followsEdgesDown_middle :
    ¬FollowsEdgesDown mainA mainB lowerMiddle
      (fillBottomFlatTriangle exactFloat mainA mainB lowerMiddle) := by
  refine (followsEdgesDown_iff ?_ ?_).not.mpr ?_ <;> decide

end Miscellaneous.Triangle
