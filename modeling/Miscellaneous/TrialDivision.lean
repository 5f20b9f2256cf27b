import Mathlib.Data.Nat.Prime.Basic
import Mathlib.Tactic

/-!
# Trial division by 6k ± 1

A number without a divisor below `i` is prime once `i * i` exceeds it.  Of
six consecutive candidates from some `i` with `i % 6 = 5` on only `i` and
`i + 2` can divide a number that neither two nor three divides.
-/

namespace TrialDivision

def Unfactored (n bound : ℕ) : Prop :=
  ∀ m, 2 ≤ m → m < bound → ¬m ∣ n

theorem unfactored_five {n : ℕ} (htwo : ¬2 ∣ n) (hthree : ¬3 ∣ n) :
    Unfactored n 5 := by
  intro m hle hlt hdvd
  have hcases : m = 2 ∨ m = 3 ∨ m = 4 := by omega
  rcases hcases with rfl | rfl | rfl
  · exact htwo hdvd
  · exact hthree hdvd
  · exact htwo ((show 2 ∣ 4 by decide).trans hdvd)

theorem Unfactored.step {n i : ℕ} (hunfactored : Unfactored n i)
    (hi : i % 6 = 5) (htwo : ¬2 ∣ n) (hthree : ¬3 ∣ n)
    (hdvd : ¬i ∣ n) (hdvd' : ¬(i + 2) ∣ n) : Unfactored n (i + 6) := by
  intro m hle hlt hm
  by_cases hbelow : m < i
  · exact hunfactored m hle hbelow hm
  · have hcases : m = i ∨ m = i + 2 ∨ 2 ∣ m ∨ 3 ∣ m := by omega
    rcases hcases with rfl | rfl | heven | hthird
    · exact hdvd hm
    · exact hdvd' hm
    · exact htwo (heven.trans hm)
    · exact hthree (hthird.trans hm)

theorem Unfactored.prime {n i : ℕ} (hunfactored : Unfactored n i)
    (hn : 1 < n) (hsquare : n < i * i) : n.Prime := by
  by_contra hprime
  have hfactor : n.minFac ^ 2 ≤ n :=
    Nat.minFac_sq_le_self (by omega) hprime
  have hlt : n.minFac < i := by
    by_contra hle
    have hmul : i * i ≤ n.minFac * n.minFac :=
      Nat.mul_le_mul (by omega) (by omega)
    rw [pow_two] at hfactor
    omega
  exact hunfactored n.minFac (Nat.minFac_prime (by omega)).two_le hlt
    (Nat.minFac_dvd n)

/-- A candidate whose square does not exceed the number, or the one two
above it, refutes primality. -/
theorem not_prime_of_candidate {n i d : ℕ} (hi : 5 ≤ i) (hsquare : i * i ≤ n)
    (hd : d = i ∨ d = i + 2) (hdvd : d ∣ n) : ¬n.Prime := by
  have hlarge : 5 * i ≤ i * i := Nat.mul_le_mul_right i hi
  exact Nat.not_prime_of_dvd_of_lt hdvd (by omega) (by omega)

end TrialDivision
