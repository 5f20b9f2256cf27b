import Miscellaneous.CInts
import Mathlib.Tactic

/-!
# Traversing a triangle

`drawTriangle` sorts the vertices by `y` and walks down and up from the outer
ones to the middle one, a scanline at a time, along two edges of which each has
a whole number of columns per scanline.  Vertices with equal `y` may be sorted
in any order.  An operation on `int` without a result ends the computation in a
`Fault`; the operations on `float` are parameters.
-/

namespace Miscellaneous.Triangle

open CInts

inductive Fault where
  | overflow
  | divisionByZero
  deriving DecidableEq, Repr

structure Vec2i where
  x : ℤ
  y : ℤ
  x_fits : Fits x
  y_fits : Fits y

/-- A call of `drawLine`, before the ends are converted to `int`. -/
structure Span (F : Type) where
  scanlineY : ℤ
  curx1 : F
  curx2 : F
  deriving DecidableEq

/-- The operations on `float`; a conversion to `int` has no result for what is
no number. -/
structure FloatOps (F : Type) where
  ofInt : ℤ → F
  add : F → F → F
  sub : F → F → F
  mul : F → F → F
  div : F → F → F
  toInt : F → Option ℤ

def exactFloat : FloatOps ℚ where
  ofInt n := n
  add := (· + ·)
  sub := (· - ·)
  mul := (· * ·)
  div := (· / ·)
  toInt q := some (truncate q)

def intResult (value : ℤ) : Except Fault ℤ :=
  if Fits value then .ok value else .error .overflow

/-- `(to.x - from.x) / (to.y - from.y)`.  The operands are evaluated in any
order; a divisor that is zero is reported even if the dividend overflows. -/
def invslope (source target : Vec2i) : Except Fault ℤ := do
  let height ← intResult (target.y - source.y)
  if height = 0 then .error .divisionByZero
  else
    let width ← intResult (target.x - source.x)
    intResult (width.tdiv height)

section Drawing

variable {F : Type} (ops : FloatOps F)

/-- The loop of `fillBottomFlatTriangle`. -/
def scanDown (last : ℤ) (invslope1 invslope2 : F) (scanlineY : ℤ)
    (curx1 curx2 : F) : Except Fault (List (Span F)) :=
  if scanlineY ≤ last then
    if Fits (scanlineY + 1) then
      (scanDown last invslope1 invslope2 (scanlineY + 1)
        (ops.add curx1 invslope1) (ops.add curx2 invslope2)).map
          (⟨scanlineY, curx1, curx2⟩ :: ·)
    else .error .overflow
  else .ok []
termination_by (last + 1 - scanlineY).toNat

/-- The loop of `fillTopFlatTriangle`. -/
def scanUp (last : ℤ) (invslope1 invslope2 : F) (scanlineY : ℤ)
    (curx1 curx2 : F) : Except Fault (List (Span F)) :=
  if scanlineY > last then
    if Fits (scanlineY - 1) then
      (scanUp last invslope1 invslope2 (scanlineY - 1)
        (ops.sub curx1 invslope1) (ops.sub curx2 invslope2)).map
          (⟨scanlineY, curx1, curx2⟩ :: ·)
    else .error .overflow
  else .ok []
termination_by (scanlineY - last).toNat

def fillBottomFlatTriangle (v1 v2 v3 : Vec2i) :
    Except Fault (List (Span F)) := do
  let invslope1 ← invslope v1 v2
  let invslope2 ← invslope v1 v3
  scanDown ops v2.y (ops.ofInt invslope1) (ops.ofInt invslope2) v1.y
    (ops.ofInt v1.x) (ops.ofInt v1.x)

def fillTopFlatTriangle (v1 v2 v3 : Vec2i) :
    Except Fault (List (Span F)) := do
  let invslope1 ← invslope v1 v3
  let invslope2 ← invslope v2 v3
  scanUp ops v1.y (ops.ofInt invslope1) (ops.ofInt invslope2) v3.y
    (ops.ofInt v3.x) (ops.ofInt v3.x)

/-- `v4`, on the edge from `vt1` to `vt3` at the `y` of `vt2`. -/
def splitVertex (vt1 vt2 vt3 : Vec2i) : Except Fault Vec2i := do
  let upper ← intResult (vt2.y - vt1.y)
  let whole ← intResult (vt3.y - vt1.y)
  if whole = 0 then .error .divisionByZero
  else
    let width ← intResult (vt3.x - vt1.x)
    let ratio := ops.div (ops.ofInt upper) (ops.ofInt whole)
    match ops.toInt
        (ops.add (ops.ofInt vt1.x) (ops.mul ratio (ops.ofInt width))) with
    | none => .error .overflow
    | some x =>
        if hx : Fits x then .ok ⟨x, vt2.y, hx, vt2.y_fits⟩
        else .error .overflow

/-- What `std::sort` may make of the vertices. -/
structure Sorted (v1 v2 v3 : Vec2i) where
  vt1 : Vec2i
  vt2 : Vec2i
  vt3 : Vec2i
  perm : [vt1, vt2, vt3].Perm [v1, v2, v3]
  first : vt1.y ≤ vt2.y
  second : vt2.y ≤ vt3.y

/-- `drawTriangle` behind the sort. -/
def drawSorted (vt1 vt2 vt3 : Vec2i) : Except Fault (List (Span F)) :=
  if vt2.y = vt3.y then fillBottomFlatTriangle ops vt1 vt2 vt3
  else if vt1.y = vt2.y then fillTopFlatTriangle ops vt1 vt2 vt3
  else do
    let v4 ← splitVertex ops vt1 vt2 vt3
    let above ← fillBottomFlatTriangle ops vt1 vt2 v4
    let below ← fillTopFlatTriangle ops vt2 v4 vt3
    .ok (above ++ below)

def drawTriangle {v1 v2 v3 : Vec2i} (sorted : Sorted v1 v2 v3) :
    Except Fault (List (Span F)) :=
  drawSorted ops sorted.vt1 sorted.vt2 sorted.vt3

end Drawing

/-! ## The vertices of `main` -/

def mainA : Vec2i := ⟨0, 0, by decide, by decide⟩

def mainB : Vec2i := ⟨0, 19, by decide, by decide⟩

def mainC : Vec2i := ⟨19, 0, by decide, by decide⟩

/-! ## Orders of three vertices -/

theorem perm_triple {α : Type*} {a b c x y z : α}
    (hperm : [a, b, c].Perm [x, y, z]) :
    (a = x ∧ b = y ∧ c = z) ∨ (a = x ∧ b = z ∧ c = y) ∨
      (a = y ∧ b = x ∧ c = z) ∨ (a = y ∧ b = z ∧ c = x) ∨
      (a = z ∧ b = x ∧ c = y) ∨ (a = z ∧ b = y ∧ c = x) := by
  have hmem := List.mem_permutations'.mpr hperm
  simp [List.permutations'] at hmem
  rcases hmem with h | h | h | h | h | h <;> simp [h]

/-! ## Slopes -/

theorem intResult_of_fits {value : ℤ} (hfits : Fits value) :
    intResult value = .ok value := if_pos hfits

theorem intResult_of_not_fits {value : ℤ} (hfits : ¬Fits value) :
    intResult value = .error .overflow := if_neg hfits

structure EdgeFits (source target : Vec2i) : Prop where
  height : Fits (target.y - source.y)
  width : Fits (target.x - source.x)

instance (source target : Vec2i) : Decidable (EdgeFits source target) :=
  decidable_of_iff
    (Fits (target.y - source.y) ∧ Fits (target.x - source.x))
    ⟨fun h => ⟨h.1, h.2⟩, fun h => ⟨h.1, h.2⟩⟩

def slope (source target : Vec2i) : ℤ :=
  (target.x - source.x).tdiv (target.y - source.y)

theorem invslope_of_lt {source target : Vec2i} (hlt : source.y < target.y) :
    invslope source target =
      if EdgeFits source target then .ok (slope source target)
      else .error .overflow := by
  unfold invslope
  by_cases hheight : Fits (target.y - source.y)
  · have hpositive : 0 < target.y - source.y := by omega
    rw [intResult_of_fits hheight]
    simp only [bind, Except.bind, if_neg hpositive.ne']
    by_cases hwidth : Fits (target.x - source.x)
    · rw [intResult_of_fits hwidth, if_pos ⟨hheight, hwidth⟩]
      exact intResult_of_fits (hwidth.tdiv hpositive)
    · rw [intResult_of_not_fits hwidth, if_neg fun hedge => hwidth hedge.width]
  · rw [intResult_of_not_fits hheight, if_neg fun hedge => hheight hedge.height]
    rfl

theorem invslope_of_eq {source target : Vec2i} (heq : target.y = source.y) :
    invslope source target = .error .divisionByZero := by
  have hzero : Fits (target.y - source.y) := by
    rw [heq, sub_self]
    decide
  unfold invslope
  rw [intResult_of_fits hzero]
  simp [bind, Except.bind, heq]

/-! ## Loops -/

section Loops

variable {F : Type}

/-- The spans of `n` turns, from a scanline on in one direction. -/
def walk (direction : ℤ) (next1 next2 : F → F) (n : ℕ) (y : ℤ) (x1 x2 : F) :
    List (Span F) :=
  (List.range n).map fun (k : ℕ) => ⟨y + direction * k, next1^[k] x1, next2^[k] x2⟩

theorem walk_succ (direction : ℤ) (next1 next2 : F → F) (n : ℕ) (y : ℤ)
    (x1 x2 : F) :
    walk direction next1 next2 (n + 1) y x1 x2 =
      ⟨y, x1, x2⟩ ::
        walk direction next1 next2 n (y + direction) (next1 x1) (next2 x2) := by
  unfold walk
  rw [List.range_succ_eq_map, List.map_cons, List.map_map]
  congr 1
  · simp
  · apply List.map_congr_left
    intro k _
    simp only [Function.comp_apply, Function.iterate_succ_apply, Nat.cast_succ,
      Span.mk.injEq, and_self, and_true]
    ring

variable (ops : FloatOps F)

theorem scanDown_eq {n : ℕ} {y : ℤ} (hfirst : Fits y) (hlast : Fits (y + n))
    (slope1 slope2 x1 x2 : F) :
    scanDown ops (y + n) slope1 slope2 y x1 x2 =
      if Fits (y + n + 1) then
        .ok (walk 1 (ops.add · slope1) (ops.add · slope2) (n + 1) y x1 x2)
      else .error .overflow := by
  induction n generalizing y x1 x2 with
  | zero =>
      have hstop : ¬y + 1 ≤ y := by omega
      rw [Nat.cast_zero, add_zero, scanDown, if_pos le_rfl, scanDown,
        if_neg hstop, walk_succ]
      rfl
  | succ n ih =>
      have hnext : Fits (y + 1) :=
        hfirst.between hlast (by omega) (by push_cast; omega)
      have hsame : y + ((n + 1 : ℕ) : ℤ) = y + 1 + n := by
        push_cast
        ring
      rw [hsame] at hlast ⊢
      rw [scanDown, if_pos (by omega), if_pos hnext, ih hnext hlast,
        walk_succ _ _ _ (n + 1)]
      split_ifs <;> rfl

theorem scanUp_eq {n : ℕ} {last : ℤ} (hlast : Fits last)
    (hfirst : Fits (last + n)) (slope1 slope2 x1 x2 : F) :
    scanUp ops last slope1 slope2 (last + n) x1 x2 =
      .ok (walk (-1) (ops.sub · slope1) (ops.sub · slope2) n (last + n) x1
        x2) := by
  induction n generalizing x1 x2 with
  | zero =>
      rw [Nat.cast_zero, add_zero, scanUp, if_neg (lt_irrefl last)]
      rfl
  | succ n ih =>
      have hprevious : last + ((n + 1 : ℕ) : ℤ) - 1 = last + n := by
        push_cast
        ring
      have hfits : Fits (last + n) :=
        hlast.between hfirst (by omega) (by push_cast; omega)
      rw [scanUp, if_pos (by push_cast; omega), hprevious, if_pos hfits,
        ih hfits, walk_succ]
      rw [← sub_eq_add_neg, hprevious]
      rfl

theorem scanDown_of_le {first last : ℤ} (hfirst : Fits first)
    (hlast : Fits last) (hle : first ≤ last) (slope1 slope2 x1 x2 : F) :
    scanDown ops last slope1 slope2 first x1 x2 =
      if Fits (last + 1) then
        .ok (walk 1 (ops.add · slope1) (ops.add · slope2)
          (last - first + 1).toNat first x1 x2)
      else .error .overflow := by
  rcases Int.eq_ofNat_of_zero_le (sub_nonneg.mpr hle) with ⟨n, hn⟩
  obtain rfl : last = first + n := by omega
  rw [scanDown_eq ops hfirst hlast]
  have hcount : (first + n - first + 1).toNat = n + 1 := by omega
  rw [hcount]

theorem scanUp_of_le {first last : ℤ} (hlast : Fits last)
    (hfirst : Fits first) (hle : last ≤ first) (slope1 slope2 x1 x2 : F) :
    scanUp ops last slope1 slope2 first x1 x2 =
      .ok (walk (-1) (ops.sub · slope1) (ops.sub · slope2)
        (first - last).toNat first x1 x2) := by
  rcases Int.eq_ofNat_of_zero_le (sub_nonneg.mpr hle) with ⟨n, hn⟩
  obtain rfl : first = last + n := by omega
  rw [scanUp_eq ops hlast hfirst]
  have hcount : (last + n - last).toNat = n := by omega
  rw [hcount]

end Loops

/-! ## Halves -/

section Halves

/-- What a half with its flat side below needs of the type `int`. -/
structure BottomFits (v1 v2 v3 : Vec2i) : Prop where
  edge1 : EdgeFits v1 v2
  edge2 : EdgeFits v1 v3
  behind : Fits (v2.y + 1)

structure TopFits (v1 v2 v3 : Vec2i) : Prop where
  edge1 : EdgeFits v1 v3
  edge2 : EdgeFits v2 v3

instance (v1 v2 v3 : Vec2i) : Decidable (BottomFits v1 v2 v3) :=
  decidable_of_iff (EdgeFits v1 v2 ∧ EdgeFits v1 v3 ∧ Fits (v2.y + 1))
    ⟨fun h => ⟨h.1, h.2.1, h.2.2⟩, fun h => ⟨h.1, h.2, h.3⟩⟩

instance (v1 v2 v3 : Vec2i) : Decidable (TopFits v1 v2 v3) :=
  decidable_of_iff (EdgeFits v1 v3 ∧ EdgeFits v2 v3)
    ⟨fun h => ⟨h.1, h.2⟩, fun h => ⟨h.1, h.2⟩⟩

variable {F : Type} (ops : FloatOps F)

def bottomSpans (v1 v2 v3 : Vec2i) : List (Span F) :=
  walk 1 (ops.add · (ops.ofInt (slope v1 v2)))
    (ops.add · (ops.ofInt (slope v1 v3))) (v2.y - v1.y + 1).toNat v1.y
    (ops.ofInt v1.x) (ops.ofInt v1.x)

def topSpans (v1 v2 v3 : Vec2i) : List (Span F) :=
  walk (-1) (ops.sub · (ops.ofInt (slope v1 v3)))
    (ops.sub · (ops.ofInt (slope v2 v3))) (v3.y - v1.y).toNat v3.y
    (ops.ofInt v3.x) (ops.ofInt v3.x)

theorem fillBottomFlatTriangle_of_lt {v1 v2 v3 : Vec2i}
    (hlt2 : v1.y < v2.y) (hlt3 : v1.y < v3.y) :
    fillBottomFlatTriangle ops v1 v2 v3 =
      if BottomFits v1 v2 v3 then .ok (bottomSpans ops v1 v2 v3)
      else .error .overflow := by
  unfold fillBottomFlatTriangle
  rw [invslope_of_lt hlt2, invslope_of_lt hlt3]
  by_cases hedge1 : EdgeFits v1 v2
  · by_cases hedge2 : EdgeFits v1 v3
    · rw [if_pos hedge1, if_pos hedge2]
      simp only [bind, Except.bind]
      rw [scanDown_of_le ops v1.y_fits v2.y_fits hlt2.le]
      exact if_congr ⟨fun h => ⟨hedge1, hedge2, h⟩, BottomFits.behind⟩ rfl rfl
    · rw [if_pos hedge1, if_neg hedge2, if_neg fun h => hedge2 h.edge2]
      rfl
  · have hnone : ¬BottomFits v1 v2 v3 := fun h => hedge1 h.edge1
    rw [if_neg hedge1, if_neg hnone]
    rfl

theorem fillTopFlatTriangle_of_lt {v1 v2 v3 : Vec2i}
    (hlt1 : v1.y < v3.y) (hlt2 : v2.y < v3.y) :
    fillTopFlatTriangle ops v1 v2 v3 =
      if TopFits v1 v2 v3 then .ok (topSpans ops v1 v2 v3)
      else .error .overflow := by
  unfold fillTopFlatTriangle
  rw [invslope_of_lt hlt1, invslope_of_lt hlt2]
  by_cases hedge1 : EdgeFits v1 v3
  · by_cases hedge2 : EdgeFits v2 v3
    · rw [if_pos hedge1, if_pos hedge2, if_pos ⟨hedge1, hedge2⟩]
      exact scanUp_of_le ops v1.y_fits v3.y_fits hlt1.le _ _ _ _
    · rw [if_pos hedge1, if_neg hedge2, if_neg fun h => hedge2 h.edge2]
      rfl
  · have hnone : ¬TopFits v1 v2 v3 := fun h => hedge1 h.edge1
    rw [if_neg hedge1, if_neg hnone]
    rfl

theorem splitVertex_of_not_fits {vt1 vt2 vt3 : Vec2i} (hlt : vt1.y < vt3.y)
    (hfits : ¬(Fits (vt2.y - vt1.y) ∧ EdgeFits vt1 vt3)) :
    splitVertex ops vt1 vt2 vt3 = .error .overflow := by
  unfold splitVertex
  by_cases hupper : Fits (vt2.y - vt1.y)
  · by_cases hheight : Fits (vt3.y - vt1.y)
    · have hwidth : ¬Fits (vt3.x - vt1.x) :=
        fun hwidth => hfits ⟨hupper, hheight, hwidth⟩
      rw [intResult_of_fits hupper, intResult_of_fits hheight,
        intResult_of_not_fits hwidth]
      simp only [bind, Except.bind]
      rw [if_neg (by omega)]
    · rw [intResult_of_fits hupper, intResult_of_not_fits hheight]
      rfl
  · rw [intResult_of_not_fits hupper]
    rfl

/-- Without an overflow the result depends on the conversion to `int` alone. -/
theorem splitVertex_of_fits {vt1 vt2 vt3 : Vec2i} (hlt : vt1.y < vt3.y)
    (hupper : Fits (vt2.y - vt1.y)) (hedge : EdgeFits vt1 vt3)
    {converted : Option ℤ}
    (hconverted : ops.toInt (ops.add (ops.ofInt vt1.x)
      (ops.mul (ops.div (ops.ofInt (vt2.y - vt1.y)) (ops.ofInt (vt3.y - vt1.y)))
        (ops.ofInt (vt3.x - vt1.x)))) = converted) :
    (∃ x, ∃ hx : Fits x, converted = some x ∧
        splitVertex ops vt1 vt2 vt3 = .ok ⟨x, vt2.y, hx, vt2.y_fits⟩) ∨
      (∀ x, converted = some x → ¬Fits x) ∧
        splitVertex ops vt1 vt2 vt3 = .error .overflow := by
  unfold splitVertex
  rw [intResult_of_fits hupper, intResult_of_fits hedge.height,
    intResult_of_fits hedge.width]
  simp only [bind, Except.bind]
  rw [if_neg (by omega), hconverted]
  cases converted with
  | none =>
      refine .inr ⟨fun x hx => ?_, rfl⟩
      cases hx
  | some x =>
      by_cases hx : Fits x
      · exact .inl ⟨x, hx, rfl, dif_pos hx⟩
      · right
        refine ⟨fun x' hx' => ?_, dif_neg hx⟩
        injection hx' with hx'
        rwa [← hx']

/-- The vertex on the long edge is beside the middle one, if there is any. -/
theorem splitVertex_of_lt {vt1 vt2 vt3 : Vec2i} (hlt : vt1.y < vt3.y) :
    (∃ v4, splitVertex ops vt1 vt2 vt3 = .ok v4 ∧ v4.y = vt2.y) ∨
      splitVertex ops vt1 vt2 vt3 = .error .overflow := by
  by_cases hfits : Fits (vt2.y - vt1.y) ∧ EdgeFits vt1 vt3
  · rcases splitVertex_of_fits ops hlt hfits.1 hfits.2 rfl with
      ⟨x, hx, _, hok⟩ | ⟨_, herror⟩
    · exact .inl ⟨_, hok, rfl⟩
    · exact .inr herror
  · exact .inr (splitVertex_of_not_fits ops hlt hfits)

end Halves

/-! ## Divisors -/

section Divisors

variable {F : Type} (ops : FloatOps F)

theorem drawSorted_of_lt {vt1 vt2 vt3 : Vec2i} (hfirst : vt1.y ≤ vt2.y)
    (hsecond : vt2.y ≤ vt3.y) (hlt : vt1.y < vt3.y) :
    drawSorted ops vt1 vt2 vt3 ≠ .error .divisionByZero := by
  unfold drawSorted
  split_ifs with hbottom htop
  · rw [fillBottomFlatTriangle_of_lt ops (by omega) hlt]
    split_ifs <;> simp
  · rw [fillTopFlatTriangle_of_lt ops hlt (by omega)]
    split_ifs <;> simp
  · rcases @splitVertex_of_lt F ops vt1 vt2 vt3 hlt with
      ⟨v4, hv4, hy⟩ | hv4
    · rw [hv4]
      simp only [bind, Except.bind]
      rw [fillBottomFlatTriangle_of_lt ops (by omega) (by omega),
        fillTopFlatTriangle_of_lt ops (by omega) (by omega)]
      split_ifs <;> simp
    · rw [hv4]
      simp [bind, Except.bind]

theorem Sorted.extremes {v1 v2 v3 : Vec2i} (sorted : Sorted v1 v2 v3) :
    min (min v1.y v2.y) v3.y = sorted.vt1.y ∧
      max (max v1.y v2.y) v3.y = sorted.vt3.y := by
  have hfirst := sorted.first
  have hsecond := sorted.second
  rcases perm_triple sorted.perm with h | h | h | h | h | h <;>
    obtain ⟨h1, h2, h3⟩ := h <;> rw [h1, h2] at hfirst <;>
    rw [h2, h3] at hsecond <;> rw [h1, h3] <;> omega

theorem Sorted.same_y_iff {v1 v2 v3 : Vec2i} (sorted : Sorted v1 v2 v3) :
    sorted.vt1.y = sorted.vt3.y ↔ v1.y = v2.y ∧ v2.y = v3.y := by
  rw [← sorted.extremes.1, ← sorted.extremes.2]
  omega

theorem drawTriangle_of_same_y {v1 v2 v3 : Vec2i} (sorted : Sorted v1 v2 v3)
    (hsame : sorted.vt1.y = sorted.vt3.y) :
    drawTriangle ops sorted = .error .divisionByZero := by
  have hfirst := sorted.first
  have hsecond := sorted.second
  have hbottom : sorted.vt2.y = sorted.vt3.y := by omega
  have htop : sorted.vt2.y = sorted.vt1.y := by omega
  rw [drawTriangle, drawSorted, if_pos hbottom, fillBottomFlatTriangle,
    invslope_of_eq htop]
  rfl

/-- No divisor is zero unless the three vertices have the same `y`. -/
theorem drawTriangle_ne_divisionByZero_iff {v1 v2 v3 : Vec2i}
    (sorted : Sorted v1 v2 v3) :
    drawTriangle ops sorted ≠ .error .divisionByZero ↔
      ¬(v1.y = v2.y ∧ v2.y = v3.y) := by
  rw [← sorted.same_y_iff]
  constructor
  · intro hdraw hsame
    exact hdraw (drawTriangle_of_same_y ops sorted hsame)
  · intro hsame
    exact drawSorted_of_lt ops sorted.first sorted.second
      (lt_of_le_of_ne (sorted.first.trans sorted.second) hsame)

/-- Two points on one scanline, the first one twice. -/
theorem drawTriangle_level :
    drawTriangle exactFloat
        (⟨mainA, mainC, mainA, .rfl, le_rfl, le_rfl⟩ :
          Sorted mainA mainC mainA) =
      .error .divisionByZero :=
  drawTriangle_of_same_y exactFloat _ rfl

end Divisors

end Miscellaneous.Triangle
