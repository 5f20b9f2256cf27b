import Miscellaneous.Triangle

/-!
# The scanlines of a triangle

A half with its flat side below is drawn with both of its ends, a half with its
flat side above without the upper one.  Two halves of one triangle fit
together; where the flat side above is an edge of the triangle itself, its
scanline is missing.
-/

namespace Miscellaneous.Triangle

open CInts

def EachRowOnce {F : Type} (low high : ℤ) (spans : List (Span F)) : Prop :=
  ∀ y, (spans.map Span.scanlineY).count y = if low ≤ y ∧ y ≤ high then 1 else 0

def EmitsEachRowOnce {F : Type} (v1 v2 v3 : Vec2i)
    (drawn : Except Fault (List (Span F))) : Prop :=
  ∃ spans, drawn = .ok spans ∧
    EachRowOnce (min (min v1.y v2.y) v3.y) (max (max v1.y v2.y) v3.y) spans

/-- Of two vertices at one `y` the third is above, and there is an `int` behind
it; the differences along the other edges have a value. -/
structure RowsCovered (v1 v2 v3 : Vec2i) : Prop where
  edges : ∀ a ∈ [v1, v2, v3], ∀ b ∈ [v1, v2, v3], a.y < b.y → EdgeFits a b
  pairs : ∀ a b c, [a, b, c].Perm [v1, v2, v3] → a.y = b.y →
    c.y < a.y ∧ Fits (a.y + 1)

/-- The `x` of the fourth vertex. -/
def FloatOps.splitX {F : Type} (ops : FloatOps F) (vt1 vt2 vt3 : Vec2i) :
    Option ℤ :=
  ops.toInt (ops.add (ops.ofInt vt1.x)
    (ops.mul (ops.div (ops.ofInt (vt2.y - vt1.y)) (ops.ofInt (vt3.y - vt1.y)))
      (ops.ofInt (vt3.x - vt1.x))))

/-- What the operations on `float` make of the fourth vertex, and its distances
from the ends of the long edge, are in the range of `int`. -/
def FloatOps.SplitFits {F : Type} (ops : FloatOps F) (vt1 vt2 vt3 : Vec2i) :
    Prop :=
  ∃ x, ops.splitX vt1 vt2 vt3 = some x ∧ Fits x ∧ Fits (x - vt1.x) ∧
    Fits (vt3.x - x)

/-- The fourth vertex is computed for vertices at three different `y`. -/
def FloatOps.SplitsFit {F : Type} (ops : FloatOps F) (v1 v2 v3 : Vec2i) :
    Prop :=
  ∀ a b c, [a, b, c].Perm [v1, v2, v3] → a.y < b.y → b.y < c.y →
    ops.SplitFits a b c

/-- Without rounding it lies between the ends of the long edge. -/
theorem exactFloat_splitFits {vt1 vt2 vt3 : Vec2i} (hupper : vt1.y < vt2.y)
    (hlower : vt2.y < vt3.y) (hedge : EdgeFits vt1 vt3) :
    exactFloat.SplitFits vt1 vt2 vt3 := by
  have hwhole : (0 : ℚ) < ((vt3.y - vt1.y : ℤ) : ℚ) := by
    exact_mod_cast (by omega : 0 < vt3.y - vt1.y)
  have hratio0 : (0 : ℚ) ≤
      ((vt2.y - vt1.y : ℤ) : ℚ) / ((vt3.y - vt1.y : ℤ) : ℚ) :=
    div_nonneg (by exact_mod_cast (by omega : 0 ≤ vt2.y - vt1.y)) hwhole.le
  have hratio1 : ((vt2.y - vt1.y : ℤ) : ℚ) / ((vt3.y - vt1.y : ℤ) : ℚ) ≤ 1 :=
    (div_le_one hwhole).mpr
      (by exact_mod_cast (by omega : vt2.y - vt1.y ≤ vt3.y - vt1.y))
  have hbetween := @truncate_between (min vt1.x vt3.x) (max vt1.x vt3.x)
    (vt1.x + ((vt2.y - vt1.y : ℤ) : ℚ) / ((vt3.y - vt1.y : ℤ) : ℚ) *
      ((vt3.x - vt1.x : ℤ) : ℚ)) ?_ ?_
  · have hwidth := hedge.width
    have hfits1 := vt1.x_fits
    have hfits3 := vt3.x_fits
    refine ⟨_, rfl, ?_, ?_, ?_⟩ <;>
      simp only [exactFloat] <;> unfold Fits at * <;> omega
  all_goals
    push_cast
    push_cast at hratio0 hratio1
    rcases le_total (vt1.x : ℚ) vt3.x with hle | hle
  · rw [min_eq_left hle]
    nlinarith
  · rw [min_eq_right hle]
    nlinarith
  · rw [max_eq_right hle]
    nlinarith
  · rw [max_eq_left hle]
    nlinarith

/-! ## One half -/

section Halves

variable {F : Type}

theorem scanlineY_walk (direction : ℤ) (next1 next2 : F → F) (n : ℕ) (y : ℤ)
    (x1 x2 : F) :
    (walk direction next1 next2 n y x1 x2).map Span.scanlineY =
      (List.range n).map fun (k : ℕ) => y + direction * k := by
  unfold walk
  rw [List.map_map]
  rfl

theorem count_walk {direction : ℤ} (hdirection : direction ≠ 0)
    (next1 next2 : F → F) (n : ℕ) (y : ℤ) (x1 x2 : F) (z : ℤ) :
    ((walk direction next1 next2 n y x1 x2).map Span.scanlineY).count z =
      if ∃ k < n, y + direction * (k : ℕ) = z then 1 else 0 := by
  have hinjective : Function.Injective fun (k : ℕ) => y + direction * k := by
    intro k l hkl
    have hmul : direction * (k : ℤ) = direction * l := by simpa using hkl
    exact_mod_cast mul_left_cancel₀ hdirection hmul
  rw [scanlineY_walk, (List.nodup_range.map hinjective).count]
  simp only [List.mem_map, List.mem_range]

variable (ops : FloatOps F)

theorem count_bottomSpans {v1 v2 : Vec2i} (v3 : Vec2i) (hlt : v1.y < v2.y)
    (y : ℤ) :
    ((bottomSpans ops v1 v2 v3).map Span.scanlineY).count y =
      if v1.y ≤ y ∧ y ≤ v2.y then 1 else 0 := by
  unfold bottomSpans
  rw [count_walk one_ne_zero]
  refine if_congr ⟨?_, fun h => ⟨(y - v1.y).toNat, ?_⟩⟩ rfl rfl
  · rintro ⟨k, hk, rfl⟩
    omega
  · omega

theorem count_topSpans {v1 v3 : Vec2i} (v2 : Vec2i) (hlt : v1.y < v3.y)
    (y : ℤ) :
    ((topSpans ops v1 v2 v3).map Span.scanlineY).count y =
      if v1.y < y ∧ y ≤ v3.y then 1 else 0 := by
  unfold topSpans
  rw [count_walk (neg_ne_zero.mpr one_ne_zero)]
  refine if_congr ⟨?_, fun h => ⟨(v3.y - y).toNat, ?_⟩⟩ rfl rfl
  · rintro ⟨k, hk, rfl⟩
    omega
  · omega

/-- Where two halves meet, the upper one has the scanline of the seam. -/
theorem eachRowOnce_append {v1 v2 v4 v3 : Vec2i} (hupper : v1.y < v2.y)
    (hlower : v2.y < v3.y) (v5 : Vec2i) :
    EachRowOnce v1.y v3.y
      (bottomSpans ops v1 v2 v5 ++ topSpans ops v2 v4 v3) := by
  intro y
  rw [List.map_append, List.count_append, count_bottomSpans ops v5 hupper,
    count_topSpans ops v4 hlower]
  split_ifs <;> omega

end Halves

/-! ## The three cases -/

section Cases

variable {F : Type} (ops : FloatOps F)

theorem fits_upper {vt1 vt2 vt3 : Vec2i} (hupper : vt1.y < vt2.y)
    (hlower : vt2.y < vt3.y) (hedge : EdgeFits vt1 vt3) :
    Fits (vt2.y - vt1.y) := by
  have hheight := hedge.height
  unfold Fits at hheight ⊢
  omega

/-- In the general case the edges to the fourth vertex matter besides those of
the triangle itself. -/
theorem drawSorted_of_split {vt1 vt2 vt3 : Vec2i} (hupper : vt1.y < vt2.y)
    (hlower : vt2.y < vt3.y) :
    (∃ spans, drawSorted ops vt1 vt2 vt3 = .ok spans ∧
        EachRowOnce vt1.y vt3.y spans) ↔
      (EdgeFits vt1 vt2 ∧ EdgeFits vt2 vt3 ∧ EdgeFits vt1 vt3) ∧
        ops.SplitFits vt1 vt2 vt3 := by
  rw [drawSorted, if_neg hlower.ne, if_neg hupper.ne]
  by_cases hedge : EdgeFits vt1 vt3
  · rcases splitVertex_of_fits ops (hupper.trans hlower)
      (fits_upper hupper hlower hedge) hedge rfl with
        ⟨x, hx, hsplit, hok⟩ | ⟨hnone, herror⟩
    · have hheight := hedge.height
      have hbehind : Fits (vt2.y + 1) :=
        vt2.y_fits.between vt3.y_fits (by omega) (by omega)
      have hupperHeight := fits_upper hupper hlower hedge
      have hlowerHeight : Fits (vt3.y - vt2.y) := by
        unfold Fits at hheight ⊢
        omega
      have hsplitFits : ops.SplitFits vt1 vt2 vt3 ↔
          Fits (x - vt1.x) ∧ Fits (vt3.x - x) := by
        constructor
        · rintro ⟨x', hx', _, hwidths⟩
          obtain rfl : x = x' := Option.some.inj (hsplit.symm.trans hx')
          exact hwidths
        · exact fun hwidths => ⟨x, hsplit, hx, hwidths⟩
      let v4 : Vec2i := ⟨x, vt2.y, hx, vt2.y_fits⟩
      have hupper4 : vt1.y < v4.y := hupper
      have hlower4 : v4.y < vt3.y := hlower
      rw [hok, hsplitFits]
      simp only [bind, Except.bind]
      rw [fillBottomFlatTriangle_of_lt ops hupper hupper4,
        fillTopFlatTriangle_of_lt ops hlower hlower4]
      by_cases hbottom : BottomFits vt1 vt2 v4
      · by_cases htop : TopFits vt2 v4 vt3
        · rw [if_pos hbottom, if_pos htop]
          exact ⟨fun _ => ⟨⟨hbottom.edge1, htop.edge1, hedge⟩,
              hbottom.edge2.width, htop.edge2.width⟩,
            fun _ => ⟨_, rfl, eachRowOnce_append ops hupper hlower _⟩⟩
        · rw [if_pos hbottom, if_neg htop]
          refine iff_of_false (by simp) ?_
          rintro ⟨⟨_, hedge2, _⟩, _, hright⟩
          exact htop ⟨hedge2, hlowerHeight, hright⟩
      · rw [if_neg hbottom]
        refine iff_of_false (by simp) ?_
        rintro ⟨⟨hedge1, _, _⟩, hleft, _⟩
        exact hbottom ⟨hedge1, ⟨hupperHeight, hleft⟩, hbehind⟩
    · rw [herror]
      refine iff_of_false (by simp [bind, Except.bind]) ?_
      rintro ⟨_, x, hx, hfits, _⟩
      exact hnone x hx hfits
  · rw [splitVertex_of_not_fits ops (hupper.trans hlower) fun h => hedge h.2]
    simp [bind, Except.bind, hedge]

theorem drawSorted_of_flat_bottom {vt1 vt2 vt3 : Vec2i}
    (hupper : vt1.y < vt2.y) (hflat : vt2.y = vt3.y) :
    (∃ spans, drawSorted ops vt1 vt2 vt3 = .ok spans ∧
        EachRowOnce vt1.y vt3.y spans) ↔ BottomFits vt1 vt2 vt3 := by
  rw [drawSorted, if_pos hflat,
    fillBottomFlatTriangle_of_lt ops hupper (by omega)]
  by_cases hfits : BottomFits vt1 vt2 vt3
  · rw [if_pos hfits, ← hflat]
    exact ⟨fun _ => hfits, fun _ =>
      ⟨_, rfl, count_bottomSpans ops vt3 hupper⟩⟩
  · rw [if_neg hfits]
    simp [hfits]

theorem drawSorted_of_flat_top {vt1 vt2 vt3 : Vec2i} (hflat : vt1.y = vt2.y)
    (hlower : vt2.y < vt3.y) :
    ¬∃ spans, drawSorted ops vt1 vt2 vt3 = .ok spans ∧
      EachRowOnce vt1.y vt3.y spans := by
  have hlt : vt1.y < vt3.y := by omega
  rw [drawSorted, if_neg hlower.ne, if_pos hflat,
    fillTopFlatTriangle_of_lt ops hlt hlower]
  rintro ⟨spans, hspans, hrows⟩
  split_ifs at hspans
  injection hspans with hspans
  have hfirst := hrows vt1.y
  rw [← hspans, count_topSpans ops vt2 hlt, if_neg (by omega),
    if_pos ⟨le_rfl, hlt.le⟩] at hfirst
  omega

end Cases

/-! ## Any order of the vertices -/

theorem RowsCovered.of_perm {u1 u2 u3 v1 v2 v3 : Vec2i}
    (hperm : [u1, u2, u3].Perm [v1, v2, v3]) (hrows : RowsCovered u1 u2 u3) :
    RowsCovered v1 v2 v3 where
  edges a ha b hb := hrows.edges a (hperm.mem_iff.mpr ha) b
    (hperm.mem_iff.mpr hb)
  pairs a b c habc := hrows.pairs a b c (habc.trans hperm.symm)

theorem edgeFits_of_mem {vt1 vt2 vt3 : Vec2i} (hfirst : vt1.y < vt2.y)
    (hsecond : vt2.y ≤ vt3.y) (h12 : EdgeFits vt1 vt2)
    (h23 : vt2.y < vt3.y → EdgeFits vt2 vt3) (h13 : EdgeFits vt1 vt3) :
    ∀ a ∈ [vt1, vt2, vt3], ∀ b ∈ [vt1, vt2, vt3], a.y < b.y → EdgeFits a b := by
  intro a ha b hb hlt
  simp only [List.mem_cons, List.not_mem_nil, or_false] at ha hb
  rcases ha with rfl | rfl | rfl <;> rcases hb with rfl | rfl | rfl <;>
    first
      | assumption
      | exact h23 hlt
      | omega

theorem rowsCovered_of_split {vt1 vt2 vt3 : Vec2i} (hupper : vt1.y < vt2.y)
    (hlower : vt2.y < vt3.y) :
    RowsCovered vt1 vt2 vt3 ↔
      EdgeFits vt1 vt2 ∧ EdgeFits vt2 vt3 ∧ EdgeFits vt1 vt3 := by
  constructor
  · intro hrows
    exact ⟨hrows.edges _ (by simp) _ (by simp) hupper,
      hrows.edges _ (by simp) _ (by simp) hlower,
      hrows.edges _ (by simp) _ (by simp) (hupper.trans hlower)⟩
  · rintro ⟨h12, h23, h13⟩
    refine ⟨edgeFits_of_mem hupper hlower.le h12 (fun _ => h23) h13, ?_⟩
    intro a b c hperm heq
    rcases perm_triple hperm with h | h | h | h | h | h <;>
      obtain ⟨rfl, rfl, rfl⟩ := h <;> omega

theorem rowsCovered_of_flat_bottom {vt1 vt2 vt3 : Vec2i}
    (hupper : vt1.y < vt2.y) (hflat : vt2.y = vt3.y) :
    RowsCovered vt1 vt2 vt3 ↔ BottomFits vt1 vt2 vt3 := by
  constructor
  · intro hrows
    have hpair := hrows.pairs vt2 vt3 vt1
      (@List.perm_append_comm _ [vt2, vt3] [vt1]) hflat
    exact ⟨hrows.edges _ (by simp) _ (by simp) hupper,
      hrows.edges _ (by simp) _ (by simp) (by omega), hpair.2⟩
  · rintro ⟨h12, h13, hbehind⟩
    have hbehind3 : Fits (vt3.y + 1) := hflat ▸ hbehind
    refine ⟨edgeFits_of_mem hupper hflat.le h12
      (fun hlt => absurd hflat hlt.ne) h13, ?_⟩
    intro a b c hperm heq
    rcases perm_triple hperm with h | h | h | h | h | h <;>
      obtain ⟨rfl, rfl, rfl⟩ := h
    all_goals first
      | omega
      | exact ⟨hupper, hbehind⟩
      | exact ⟨by omega, hbehind3⟩

theorem not_rowsCovered_of_flat_top {vt1 vt2 vt3 : Vec2i}
    (hflat : vt1.y = vt2.y) (hlower : vt2.y < vt3.y) :
    ¬RowsCovered vt1 vt2 vt3 := by
  intro hrows
  have hpair := hrows.pairs vt1 vt2 vt3 .rfl hflat
  omega

section Orders

variable {F : Type} (ops : FloatOps F)

theorem splitsFit_iff {vt1 vt2 vt3 : Vec2i} (hfirst : vt1.y ≤ vt2.y)
    (hsecond : vt2.y ≤ vt3.y) :
    ops.SplitsFit vt1 vt2 vt3 ↔
      (vt1.y < vt2.y → vt2.y < vt3.y → ops.SplitFits vt1 vt2 vt3) := by
  constructor
  · intro hall
    exact hall vt1 vt2 vt3 .rfl
  · intro hsplit a b c hperm hupper hlower
    rcases perm_triple hperm with h | h | h | h | h | h <;>
      obtain ⟨rfl, rfl, rfl⟩ := h
    · exact hsplit hupper hlower
    all_goals omega

theorem FloatOps.SplitsFit.of_perm {u1 u2 u3 v1 v2 v3 : Vec2i}
    (hperm : [u1, u2, u3].Perm [v1, v2, v3]) (hsplits : ops.SplitsFit u1 u2 u3) :
    ops.SplitsFit v1 v2 v3 :=
  fun a b c habc => hsplits a b c (habc.trans hperm.symm)

theorem drawSorted_rows {vt1 vt2 vt3 : Vec2i} (hfirst : vt1.y ≤ vt2.y)
    (hsecond : vt2.y ≤ vt3.y) (hlt : vt1.y < vt3.y) :
    (∃ spans, drawSorted ops vt1 vt2 vt3 = .ok spans ∧
        EachRowOnce vt1.y vt3.y spans) ↔
      RowsCovered vt1 vt2 vt3 ∧ ops.SplitsFit vt1 vt2 vt3 := by
  rw [splitsFit_iff ops hfirst hsecond]
  by_cases hbottom : vt2.y = vt3.y
  · have hupper : vt1.y < vt2.y := by omega
    rw [drawSorted_of_flat_bottom ops hupper hbottom,
      rowsCovered_of_flat_bottom hupper hbottom]
    exact (and_iff_left fun _ hlower => absurd hbottom hlower.ne).symm
  · have hlower : vt2.y < vt3.y := lt_of_le_of_ne hsecond hbottom
    by_cases htop : vt1.y = vt2.y
    · exact iff_of_false (drawSorted_of_flat_top ops htop hlower)
        fun h => not_rowsCovered_of_flat_top htop hlower h.1
    · have hupper : vt1.y < vt2.y := lt_of_le_of_ne hfirst htop
      rw [drawSorted_of_split ops hupper hlower,
        rowsCovered_of_split hupper hlower]
      exact and_congr_right fun _ => ⟨fun h _ _ => h, fun h => h hupper hlower⟩

/-- For vertices that are not all at one `y`: every scanline is drawn once
exactly when at most one of them has the smallest `y`, and no operation along
an edge, the ones to the fourth vertex included, overflows. -/
theorem emitsEachRowOnce_iff {v1 v2 v3 : Vec2i} (sorted : Sorted v1 v2 v3)
    (hlevel : ¬(v1.y = v2.y ∧ v2.y = v3.y)) :
    EmitsEachRowOnce v1 v2 v3 (drawTriangle ops sorted) ↔
      RowsCovered v1 v2 v3 ∧ ops.SplitsFit v1 v2 v3 := by
  have hlt : sorted.vt1.y < sorted.vt3.y :=
    lt_of_le_of_ne (sorted.first.trans sorted.second)
      (mt sorted.same_y_iff.mp hlevel)
  have hcovered : RowsCovered sorted.vt1 sorted.vt2 sorted.vt3 ∧
      ops.SplitsFit sorted.vt1 sorted.vt2 sorted.vt3 ↔
      RowsCovered v1 v2 v3 ∧ ops.SplitsFit v1 v2 v3 :=
    and_congr ⟨.of_perm sorted.perm, .of_perm sorted.perm.symm⟩
      ⟨.of_perm ops sorted.perm, .of_perm ops sorted.perm.symm⟩
  rw [← hcovered, ← drawSorted_rows ops sorted.first sorted.second hlt]
  unfold EmitsEachRowOnce
  rw [sorted.extremes.1, sorted.extremes.2]
  rfl

end Orders

def commentedA : Vec2i := ⟨4, 4, by decide, by decide⟩

def commentedB : Vec2i := ⟨8, 16, by decide, by decide⟩

def commentedC : Vec2i := ⟨18, 8, by decide, by decide⟩

theorem emitsEachRowOnce_commented :
    EmitsEachRowOnce commentedA commentedB commentedC
      (drawTriangle exactFloat
        ⟨commentedA, commentedC, commentedB, (List.Perm.swap _ _ _).cons _,
          by decide, by decide⟩) := by
  have hcovered := (@rowsCovered_of_split commentedA commentedC commentedB
    (by decide) (by decide)).mpr (by decide)
  have hsplits := (@splitsFit_iff _ exactFloat commentedA commentedC commentedB
    (by decide) (by decide)).mpr fun hupper hlower =>
      exactFloat_splitFits hupper hlower (by decide)
  have hperm : [commentedA, commentedC, commentedB].Perm
      [commentedA, commentedB, commentedC] := (List.Perm.swap _ _ _).cons _
  exact (emitsEachRowOnce_iff exactFloat _ (by decide)).mpr
    ⟨hcovered.of_perm hperm, hsplits.of_perm exactFloat hperm⟩

/-- Two of the vertices of `main` have the smallest `y`. -/
theorem not_emitsEachRowOnce_main :
    ¬EmitsEachRowOnce mainA mainB mainC
      (drawTriangle exactFloat
        ⟨mainA, mainC, mainB, (List.Perm.swap _ _ _).cons _, by decide,
          by decide⟩) :=
  drawSorted_of_flat_top exactFloat rfl (by decide)

end Miscellaneous.Triangle
