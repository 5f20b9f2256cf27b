import Mathlib.Tactic

/-!
# The type `int`

An `int` has 32 bits.  The quotient of two of them is truncated, and for a
positive divisor it lies between zero and the dividend.
-/

namespace CInts

def Fits (n : ℤ) : Prop := -2147483648 ≤ n ∧ n ≤ 2147483647

instance (n : ℤ) : Decidable (Fits n) :=
  inferInstanceAs (Decidable (-2147483648 ≤ n ∧ n ≤ 2147483647))

/-- The value of an expression of type `int`; overflow is undefined. -/
def checked (n : ℤ) : Option ℤ := if Fits n then some n else none

theorem checked_of_fits {n : ℤ} (hn : Fits n) : checked n = some n := if_pos hn

theorem checked_of_not_fits {n : ℤ} (hn : ¬Fits n) : checked n = none :=
  if_neg hn

theorem Fits.between {low n high : ℤ} (hlow : Fits low) (hhigh : Fits high)
    (hle : low ≤ n) (hle' : n ≤ high) : Fits n :=
  ⟨hlow.1.trans hle, hle'.trans hhigh.2⟩

theorem Fits.of_abs_le {m n : ℤ} (hm : Fits m) (h : (0 ≤ n ∧ n ≤ m) ∨
    (m ≤ n ∧ n ≤ 0)) : Fits n := by
  unfold Fits at hm ⊢
  omega

theorem tdiv_between (n : ℤ) {d : ℤ} (hd : 0 < d) :
    (0 ≤ n.tdiv d ∧ n.tdiv d ≤ n) ∨ (n ≤ n.tdiv d ∧ n.tdiv d ≤ 0) := by
  rcases le_total 0 n with hn | hn
  · left
    rw [Int.tdiv_eq_ediv_of_nonneg hn]
    exact ⟨Int.ediv_nonneg hn hd.le, Int.ediv_le_self d hn⟩
  · right
    have hneg : n.tdiv d = -((-n) / d) := by
      rw [← Int.tdiv_eq_ediv_of_nonneg (neg_nonneg.mpr hn), Int.neg_tdiv, neg_neg]
    have hle := Int.ediv_le_self d (neg_nonneg.mpr hn)
    have hnonneg := Int.ediv_nonneg (neg_nonneg.mpr hn) hd.le
    rw [hneg]
    omega

theorem Fits.tdiv {n d : ℤ} (hn : Fits n) (hd : 0 < d) : Fits (n.tdiv d) :=
  hn.of_abs_le (tdiv_between n hd)

theorem tdiv_cast_eq_iff {n d : ℤ} (hd : d ≠ 0) :
    (n.tdiv d : ℚ) = n / d ↔ d ∣ n := by
  have hcast : (d : ℚ) ≠ 0 := Int.cast_ne_zero.mpr hd
  rw [eq_div_iff hcast]
  constructor
  · intro heq
    exact Dvd.intro_left (n.tdiv d) (by exact_mod_cast heq)
  · rintro ⟨q, rfl⟩
    rw [Int.mul_tdiv_cancel_left q hd]
    push_cast
    ring

/-! ## The value of a fraction as an `int` -/

def truncate (q : ℚ) : ℤ := if 0 ≤ q then ⌊q⌋ else ⌈q⌉

/-- A fraction between two integers is truncated to an integer between them. -/
theorem truncate_between {low high : ℤ} {q : ℚ} (hlow : (low : ℚ) ≤ q)
    (hhigh : q ≤ high) : low ≤ truncate q ∧ truncate q ≤ high := by
  unfold truncate
  split_ifs
  · have hfloor : (⌊q⌋ : ℚ) ≤ high := (Int.floor_le q).trans hhigh
    exact ⟨Int.le_floor.mpr hlow, by exact_mod_cast hfloor⟩
  · have hceil : (low : ℚ) ≤ ⌈q⌉ := hlow.trans (Int.le_ceil q)
    exact ⟨by exact_mod_cast hceil, Int.ceil_le.mpr hhigh⟩

end CInts
