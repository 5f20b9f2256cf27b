import Miscellaneous.ByteCopies
import Mathlib.Algebra.Group.Even
import Mathlib.Tactic

/-!
# From I420 to NV21

The conversion in `test_bgr_to_yuv` of `test_opencv.cpp`, between the two calls
of the library.  Its buffers have `w * h * 3 / 2` bytes, where the products are
of type `int`; every other index is smaller than this product.
-/

namespace Miscellaneous.Nv21

open ByteCopies

/-- The planes of a picture with `w` columns and `h` rows.  There is one `u` and
one `v` for a square of four pixels. -/
structure Planes (w h : ℕ) where
  y : List UInt8
  u : List UInt8
  v : List UInt8
  length_y : y.length = w * h
  length_u : u.length = w / 2 * (h / 2)
  length_v : v.length = w / 2 * (h / 2)

def Planes.i420 {w h : ℕ} (planes : Planes w h) : List UInt8 :=
  planes.y ++ planes.u ++ planes.v

def Planes.nv21 {w h : ℕ} (planes : Planes w h) : List UInt8 :=
  planes.y ++ interleave planes.v planes.u

/-- The planes of an NV21 buffer one after another. -/
def deinterleave (w h : ℕ) (nv21 : List UInt8) : List UInt8 :=
  nv21.take (w * h) ++ odds (nv21.drop (w * h)) ++ evens (nv21.drop (w * h))

/-! ## The conversion -/

/-- A product of two numbers of type `int`, or signed overflow. -/
def intMul (a b : ℕ) : Option ℕ :=
  if a * b < 2 ^ 31 then some (a * b) else none

/-- `w * h * 3 / 2`. -/
def yuvSize (w h : ℕ) : Option ℕ := do
  let area ← intMul w h
  let total ← intMul area 3
  return total / 2

/-- `memcpy(ptr.get(), I420.data, w * h)`. -/
def lumaCopies (w h : ℕ) : List Copy :=
  (List.range (w * h)).map fun k => ⟨k, k⟩

/-- The body of the loop; `uv_dst` and `uv_src` start at `w * h`. -/
def chromaCopies (w h i : ℕ) : List Copy :=
  [⟨w * h + i, w * h + (w * h / 4 + i / 2)⟩,
    ⟨w * h + (i + 1), w * h + i / 2⟩]

/-- All assignments; `i` takes the even values below `w * h / 2`. -/
def copies (w h : ℕ) : List Copy :=
  lumaCopies w h ++
    (List.range ((w * h / 2 + 1) / 2)).flatMap fun turn =>
      chromaCopies w h (2 * turn)

/-- The buffer which is written to the file; the bytes of a new one are not
initialised. -/
def testBgrToYuv (w h : ℕ) (i420 : List UInt8) :
    Option (List (Option UInt8)) := do
  let size ← yuvSize w h
  runCopies i420 size (copies w h)

structure ConvertsToNv21 {w h : ℕ} (planes : Planes w h) : Prop where
  runs : testBgrToYuv w h planes.i420 = some (planes.nv21.map some)
  reads : ∀ copy ∈ copies w h, copy.src < planes.i420.length
  writes : ((copies w h).map Copy.dst).Perm (List.range (w * h * 3 / 2))
  recovers : deinterleave w h planes.nv21 = planes.i420

/-! ## Its indices -/

theorem yuvSize_eq (w h : ℕ) :
    yuvSize w h = if w * h * 3 < 2 ^ 31 then some (w * h * 3 / 2) else none := by
  unfold yuvSize intMul
  by_cases harea : w * h < 2 ^ 31
  · rw [if_pos harea]
    simp only [Option.bind_eq_bind, Option.bind_some]
    split_ifs <;> rfl
  · rw [if_neg harea, if_neg (by omega)]
    rfl

theorem mul_eq_squares {w h : ℕ} (hw : Even w) (hh : Even h) :
    w * h = 4 * (w / 2 * (h / 2)) := by
  rcases hw with ⟨a, rfl⟩
  rcases hh with ⟨b, rfl⟩
  have ha : (a + a) / 2 = a := by omega
  have hb : (b + b) / 2 = b := by omega
  rw [ha, hb]
  ring

section Copies

variable {w h quarter : ℕ} (hquarter : w * h = 4 * quarter)

include hquarter

/-- The loop takes one turn for a sample of `v` and one of `u`. -/
theorem copies_eq :
    copies w h = lumaCopies w h ++ (List.range quarter).flatMap fun turn =>
      [⟨w * h + 2 * turn, w * h + quarter + turn⟩,
        ⟨w * h + (2 * turn + 1), w * h + turn⟩] := by
  have hturns : (w * h / 2 + 1) / 2 = quarter := by omega
  have hplane : w * h / 4 = quarter := by omega
  have hhalf (turn : ℕ) : 2 * turn / 2 = turn := by omega
  unfold copies chromaCopies
  simp only [hturns, hplane, hhalf, Nat.add_assoc]

theorem copies_dst :
    (copies w h).map Copy.dst = List.range (w * h * 3 / 2) := by
  have hsize : w * h * 3 / 2 = w * h + 2 * quarter := by omega
  have hpairs (turns : ℕ) :
      (List.range turns).flatMap
          (fun turn => [w * h + 2 * turn, w * h + (2 * turn + 1)]) =
        (List.range (2 * turns)).map (w * h + ·) := by
    induction turns with
    | zero => rfl
    | succ turns ih =>
        have hdouble : 2 * (turns + 1) = 2 * turns + 1 + 1 := by ring
        rw [List.range_succ, List.flatMap_append, ih, hdouble, List.range_succ,
          List.range_succ]
        simp
  rw [copies_eq hquarter, lumaCopies, List.map_append, List.map_map,
    List.map_flatMap, hsize, List.range_add, ← hpairs]
  congr 1
  exact List.map_id _

theorem copies_src {copy : Copy} (hcopy : copy ∈ copies w h) :
    copy.src < w * h + quarter + quarter := by
  rw [copies_eq hquarter, lumaCopies, List.mem_append, List.mem_map,
    List.mem_flatMap] at hcopy
  rcases hcopy with ⟨k, hk, rfl⟩ | ⟨turn, hturn, hcopy⟩
  · rw [List.mem_range] at hk
    show k < w * h + quarter + quarter
    omega
  · rw [List.mem_range] at hturn
    simp only [List.mem_cons, List.not_mem_nil, or_false] at hcopy
    rcases hcopy with rfl | rfl
    · show w * h + quarter + turn < w * h + quarter + quarter
      omega
    · show w * h + turn < w * h + quarter + quarter
      omega

end Copies

/-! ## The converted picture -/

theorem Planes.length_i420 {w h : ℕ} (planes : Planes w h) :
    planes.i420.length = w * h + w / 2 * (h / 2) + w / 2 * (h / 2) := by
  unfold Planes.i420
  rw [List.length_append, List.length_append, planes.length_y, planes.length_u,
    planes.length_v]

theorem deinterleave_nv21 {w h : ℕ} (planes : Planes w h) :
    deinterleave w h planes.nv21 = planes.i420 := by
  have hlength : planes.v.length = planes.u.length := by
    rw [planes.length_v, planes.length_u]
  unfold deinterleave Planes.nv21 Planes.i420
  rw [← planes.length_y, List.take_left, List.drop_left, odds_interleave hlength,
    evens_interleave hlength]

section Converted

variable {w h : ℕ} (hw : Even w) (hh : Even h) (planes : Planes w h)

include hw hh

theorem copies_values :
    ((copies w h).map fun copy => planes.i420[copy.src]?) =
      planes.nv21.map some := by
  have hquarter := mul_eq_squares hw hh
  have hy := @map_getElem?_range _ [] planes.y (planes.u ++ planes.v)
  have hu := @map_getElem?_range _ planes.y planes.u planes.v
  have hv := @map_getElem?_range _ (planes.y ++ planes.u) planes.v []
  simp only [List.nil_append, List.append_nil, List.length_nil, Nat.zero_add,
    List.length_append, planes.length_y, planes.length_u, planes.length_v,
    ← List.append_assoc] at hy hu hv
  rw [copies_eq hquarter, lumaCopies, List.map_append, List.map_map,
    List.map_flatMap]
  simp only [List.map_cons, List.map_nil, Function.comp_def]
  rw [flatMap_pair]
  unfold Planes.i420 Planes.nv21
  rw [hy, hu, hv, List.map_append, map_interleave]

/-- The buffer is converted exactly when its size does not overflow. -/
theorem convertsToNv21_iff : ConvertsToNv21 planes ↔ w * h * 3 < 2 ^ 31 := by
  have hquarter := mul_eq_squares hw hh
  constructor
  · intro hconverts
    by_contra hoverflow
    have hruns := hconverts.runs
    unfold testBgrToYuv at hruns
    rw [yuvSize_eq, if_neg hoverflow] at hruns
    cases hruns
  · intro hfits
    have hreads : ∀ copy ∈ copies w h, copy.src < planes.i420.length := by
      intro copy hcopy
      rw [planes.length_i420]
      exact copies_src hquarter hcopy
    refine ⟨?_, hreads, ?_, deinterleave_nv21 planes⟩
    · unfold testBgrToYuv
      rw [yuvSize_eq, if_pos hfits, ← copies_values hw hh]
      exact runCopies_eq (copies_dst hquarter) hreads
    · rw [copies_dst hquarter]

end Converted

theorem convertsToNv21_square :
    ConvertsToNv21 (⟨[1, 2, 3, 4], [5], [6], rfl, rfl, rfl⟩ : Planes 2 2) :=
  (convertsToNv21_iff (by decide) (by decide) _).mpr (by decide)

def black (side : ℕ) : Planes side side where
  y := List.replicate (side * side) 16
  u := List.replicate (side / 2 * (side / 2)) 128
  v := List.replicate (side / 2 * (side / 2)) 128
  length_y := List.length_replicate
  length_u := List.length_replicate
  length_v := List.length_replicate

theorem not_convertsToNv21_black :
    ¬∀ w h : ℕ, Even w → Even h → 2 ≤ w → 2 ≤ h →
      ∀ planes : Planes w h, ConvertsToNv21 planes := by
  intro hall
  have hruns := (hall 26756 26756 (by decide) (by decide) (by decide)
    (by decide) (black 26756)).runs
  have hsize : yuvSize 26756 26756 = none := by decide
  unfold testBgrToYuv at hruns
  rw [hsize] at hruns
  cases hruns

end Miscellaneous.Nv21
