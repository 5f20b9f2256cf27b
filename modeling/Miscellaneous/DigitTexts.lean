import Mathlib.Data.Nat.Digits.Defs
import Mathlib.Tactic

/-!
# Numbers printed one after another

Two numbers printed in a base of at most sixteen, without a separator.  The text
is determined by its length and the number that it is as a whole, so it is read
in two ways exactly if digits can go over from the front of the second number
to the end of the first one.
-/

namespace DigitTexts

def digitValue (c : Char) : ℕ :=
  if c.toNat < 58 then c.toNat - 48 else c.toNat - 87

/-- The number that a text is in the base. -/
def number (base : ℕ) (text : List Char) : ℕ :=
  text.foldl (fun n c => base * n + digitValue c) 0

def width (base n : ℕ) : ℕ := (Nat.toDigits base n).length

def IsDigits (base : ℕ) (text : List Char) : Prop :=
  ∀ c ∈ text, ∃ d < base, c = Nat.digitChar d

theorem digitValue_digitChar {d : ℕ} (hd : d < 16) :
    digitValue (Nat.digitChar d) = d := by
  revert d
  decide

theorem number_append_singleton (base : ℕ) (text : List Char) (c : Char) :
    number base (text ++ [c]) = base * number base text + digitValue c := by
  simp [number]

section Base

variable {base : ℕ} (hbase : 1 < base) (hle : base ≤ 16)

include hbase hle

theorem number_toDigits (n : ℕ) : number base (Nat.toDigits base n) = n := by
  induction n using Nat.strongRecOn with
  | ind n ih =>
      rw [Nat.toDigits_eq_if hbase]
      split_ifs with hn
      · simp [number, digitValue_digitChar (hn.trans_le hle)]
      · have hmod : n % base < 16 :=
          (Nat.mod_lt n (by omega)).trans_le hle
        have hdiv : n / base < n := Nat.div_lt_self (by omega) hbase
        rw [number_append_singleton, ih _ hdiv, digitValue_digitChar hmod,
          Nat.div_add_mod]

omit hle in
theorem isDigits_toDigits (n : ℕ) : IsDigits base (Nat.toDigits base n) := by
  induction n using Nat.strongRecOn with
  | ind n ih =>
      rw [Nat.toDigits_eq_if hbase]
      split_ifs with hn
      · intro c hc
        exact ⟨n, hn, List.mem_singleton.mp hc⟩
      · intro c hc
        rcases List.mem_append.mp hc with hc | hc
        · exact ih _ (Nat.div_lt_self (by omega) hbase) c hc
        · exact ⟨n % base, Nat.mod_lt n (by omega), List.mem_singleton.mp hc⟩

omit hbase hle in
theorem number_append (text more : List Char) :
    number base (text ++ more) =
      number base text * base ^ more.length + number base more := by
  induction more using List.reverseRecOn with
  | nil => simp [number]
  | append_singleton more c ih =>
      rw [← List.append_assoc, number_append_singleton, ih,
        number_append_singleton, List.length_append, List.length_singleton,
        pow_succ]
      ring

/-- Digits of the same length and the same number are the same. -/
theorem eq_of_number_eq {text other : List Char} (htext : IsDigits base text)
    (hother : IsDigits base other) (hlength : text.length = other.length)
    (hnumber : number base text = number base other) : text = other := by
  induction text using List.reverseRecOn generalizing other with
  | nil => exact (List.length_eq_zero_iff.mp hlength.symm).symm
  | append_singleton text c ih =>
      induction other using List.reverseRecOn with
      | nil => simp at hlength
      | append_singleton other c' _ =>
          rcases htext c (by simp) with ⟨d, hd, hc⟩
          rcases hother c' (by simp) with ⟨d', hd', hc'⟩
          rw [number_append_singleton, number_append_singleton, hc, hc',
            digitValue_digitChar (hd.trans_le hle),
            digitValue_digitChar (hd'.trans_le hle)] at hnumber
          have hdiv := congrArg (· / base) hnumber
          have hmod := congrArg (· % base) hnumber
          simp only [Nat.mul_add_div (by omega : base > 0), Nat.mul_add_mod,
            Nat.div_eq_of_lt hd, Nat.div_eq_of_lt hd', Nat.mod_eq_of_lt hd,
            Nat.mod_eq_of_lt hd', Nat.add_zero] at hdiv hmod
          have hsame : text = other := by
            apply ih
            · exact fun c hc => htext c (List.mem_append_left _ hc)
            · exact fun c hc => hother c (List.mem_append_left _ hc)
            · simpa using hlength
            · exact hdiv
          rw [hsame, hc, hc', hmod]

/-- The text of two numbers is its length and the number that it is as a
whole. -/
theorem toDigits_append_eq_iff (x y x' y' : ℕ) :
    Nat.toDigits base x ++ Nat.toDigits base y =
        Nat.toDigits base x' ++ Nat.toDigits base y' ↔
      width base x + width base y = width base x' + width base y' ∧
        x * base ^ width base y + y = x' * base ^ width base y' + y' := by
  have hwhole (x y : ℕ) :
      number base (Nat.toDigits base x ++ Nat.toDigits base y) =
        x * base ^ width base y + y := by
    rw [number_append, number_toDigits hbase hle, number_toDigits hbase hle]
    rfl
  have hdigits (x y : ℕ) :
      IsDigits base (Nat.toDigits base x ++ Nat.toDigits base y) := by
    intro c hc
    rcases List.mem_append.mp hc with hc | hc
    · exact isDigits_toDigits hbase x c hc
    · exact isDigits_toDigits hbase y c hc
  constructor
  · intro hsame
    have hlength := congrArg List.length hsame
    rw [List.length_append, List.length_append] at hlength
    have hnumber := congrArg (number base) hsame
    rw [hwhole, hwhole] at hnumber
    exact ⟨hlength, hnumber⟩
  · rintro ⟨hlength, hnumber⟩
    apply eq_of_number_eq hbase hle (hdigits x y) (hdigits x' y')
    · rw [List.length_append, List.length_append]
      exact hlength
    · rw [hwhole, hwhole]
      exact hnumber

/-! ## The width of a number -/

omit hle

theorem width_le_iff {n k : ℕ} (hk : 0 < k) :
    width base n ≤ k ↔ n < base ^ k :=
  Nat.length_toDigits_le_iff hbase hk

omit hbase in
theorem width_pos (base n : ℕ) : 0 < width base n := Nat.length_toDigits_pos

theorem lt_pow_width (n : ℕ) : n < base ^ width base n :=
  (width_le_iff hbase (width_pos base n)).mp le_rfl

theorem pow_width_le {n : ℕ} (hn : 0 < n) :
    base ^ (width base n - 1) ≤ n := by
  by_cases hone : width base n = 1
  · rw [hone]
    exact hn
  · have hpos := width_pos base n
    by_contra hlt
    rw [not_le, ← width_le_iff hbase (by omega)] at hlt
    omega

/-- Digits behind a number that is not zero are all part of the width. -/
theorem width_mul_add {x d q : ℕ} (hx : 0 < x) (hq : q < base ^ d) :
    width base (x * base ^ d + q) = width base x + d := by
  have hpos := width_pos base x
  apply le_antisymm
  · rw [width_le_iff hbase (by omega), pow_add]
    have hlt := lt_pow_width hbase x
    calc
      x * base ^ d + q < x * base ^ d + base ^ d := by omega
      _ = (x + 1) * base ^ d := by ring
      _ ≤ base ^ width base x * base ^ d := Nat.mul_le_mul_right _ hlt
  · by_contra hlt
    rw [not_le] at hlt
    by_cases hzero : width base x + d = 1
    · have hother := width_pos base (x * base ^ d + q)
      omega
    have hle : width base (x * base ^ d + q) ≤ width base x + d - 1 := by omega
    rw [width_le_iff hbase (by omega)] at hle
    have hpow : base ^ (width base x + d - 1) ≤ x * base ^ d := by
      rw [show width base x + d - 1 = width base x - 1 + d by omega, pow_add]
      exact Nat.mul_le_mul_right _ (pow_width_le hbase hx)
    omega

/-! ## Two readings -/

end Base

/-- Digits of the second number go over from its front to the end of the first
one. -/
def Shifted (base x y x' y' : ℕ) : Prop :=
  ∃ d q, 0 < d ∧ 0 < x ∧ q < base ^ d ∧ x' = x * base ^ d + q ∧
    y = q * base ^ width base y' + y' ∧ width base y = width base y' + d

section Readings

variable {base : ℕ} (hbase : 1 < base) (hle : base ≤ 16)

include hbase

theorem Shifted.whole {x y x' y' : ℕ} (hshifted : Shifted base x y x' y') :
    width base x + width base y = width base x' + width base y' ∧
      x * base ^ width base y + y = x' * base ^ width base y' + y' := by
  rcases hshifted with ⟨d, q, hd, hx, hq, hx', hy, hwidth⟩
  constructor
  · rw [hx', width_mul_add hbase hx hq]
    omega
  · rw [hwidth, hx', pow_add]
    calc
      x * (base ^ width base y' * base ^ d) + y =
          x * (base ^ width base y' * base ^ d) +
            (q * base ^ width base y' + y') := by rw [← hy]
      _ = (x * base ^ d + q) * base ^ width base y' + y' := by ring

/-- Of two readings the one with the wider second number is the one that digits
go over from. -/
theorem shifted_of_whole {x y x' y' : ℕ}
    (hwidth : width base x + width base y = width base x' + width base y')
    (hwhole : x * base ^ width base y + y = x' * base ^ width base y' + y')
    (hlt : width base y' < width base y) : Shifted base x y x' y' := by
  obtain ⟨d, hd⟩ := Nat.exists_eq_add_of_lt hlt
  rw [add_assoc] at hd
  have hy := lt_pow_width hbase y
  have hy' := lt_pow_width hbase y'
  have hpow : 0 < base ^ width base y' := Nat.pow_pos (by omega)
  rw [hd, pow_add] at hwhole
  have hmul : x * (base ^ width base y' * base ^ (d + 1)) + y =
      base ^ width base y' * (x * base ^ (d + 1)) + y := by ring
  rw [hmul] at hwhole
  have hmod := congrArg (· % base ^ width base y') hwhole
  have hdiv := congrArg (· / base ^ width base y') hwhole
  simp only [Nat.mul_add_mod, Nat.mul_add_div hpow, Nat.mul_comm x',
    Nat.mod_eq_of_lt hy', Nat.div_eq_of_lt hy', Nat.add_zero] at hmod hdiv
  have hq : y / base ^ width base y' < base ^ (d + 1) := by
    rw [Nat.div_lt_iff_lt_mul hpow, ← pow_add, add_comm (d + 1), ← hd]
    exact hy
  refine ⟨d + 1, y / base ^ width base y', by omega, ?_, hq, hdiv.symm, ?_, hd⟩
  · by_contra hzero
    have hx : x = 0 := by omega
    have hx' : width base x' ≤ d + 1 := by
      rw [width_le_iff hbase (by omega), ← hdiv, hx, zero_mul, zero_add]
      exact hq
    have hpos := width_pos base x
    omega
  · have hsplit := Nat.div_add_mod y (base ^ width base y')
    rw [hmod, Nat.mul_comm] at hsplit
    exact hsplit.symm

include hle

theorem toDigits_append_eq_iff_shifted (x y x' y' : ℕ) :
    Nat.toDigits base x ++ Nat.toDigits base y =
        Nat.toDigits base x' ++ Nat.toDigits base y' ↔
      (x = x' ∧ y = y') ∨ Shifted base x y x' y' ∨ Shifted base x' y' x y := by
  rw [toDigits_append_eq_iff hbase hle]
  constructor
  · rintro ⟨hwidth, hwhole⟩
    rcases lt_trichotomy (width base y) (width base y') with hlt | heq | hgt
    · exact Or.inr (Or.inr
        (shifted_of_whole hbase hwidth.symm hwhole.symm hlt))
    · left
      have hy := lt_pow_width hbase y
      have hy' := lt_pow_width hbase y'
      have hpow : 0 < base ^ width base y' := Nat.pow_pos (by omega)
      rw [heq] at hwhole hy
      rw [Nat.mul_comm x, Nat.mul_comm x'] at hwhole
      have hmod := congrArg (· % base ^ width base y') hwhole
      have hdiv := congrArg (· / base ^ width base y') hwhole
      simp only [Nat.mul_add_mod, Nat.mul_add_div hpow, Nat.mod_eq_of_lt hy,
        Nat.mod_eq_of_lt hy', Nat.div_eq_of_lt hy, Nat.div_eq_of_lt hy',
        Nat.add_zero] at hmod hdiv
      exact ⟨hdiv, hmod⟩
    · exact Or.inr (Or.inl (shifted_of_whole hbase hwidth hwhole hgt))
  · rintro (⟨hx, hy⟩ | hshifted | hshifted)
    · rw [hx, hy]
      exact ⟨rfl, rfl⟩
    · exact hshifted.whole hbase
    · have hwhole := hshifted.whole hbase
      exact ⟨hwhole.1.symm, hwhole.2.symm⟩

end Readings

end DigitTexts
