import Miscellaneous.TrialDivision
import Mathlib.Tactic

/-!
# The prime test of the reader

`is_prime` of `fifoReader.c` on 32-bit unsigned words.  The loop variable
comes back to its first value within `2 ^ 32` passes, so a loop that has not
returned by then never does.  Up to the square of the last candidate below
`2 ^ 16` no operation of the loop wraps around, and the test is right.
-/

namespace Miscellaneous.PrimeTest

open TrialDivision

inductive Fault where
  | divisionByZero
  | nonterminating
  deriving DecidableEq, Repr

/-- `for (; (i * i) <= n; i += 6)`, for a number of passes. -/
def isPrimeLoop (n : UInt32) : ℕ → UInt32 → Except Fault UInt32
  | 0, _ => .error .nonterminating
  | fuel + 1, i =>
      if i * i ≤ n then
        if i = 0 then .error .divisionByZero
        else if n % i = 0 then .ok 0
        else if i + 2 = 0 then .error .divisionByZero
        else if n % (i + 2) = 0 then .ok 0
        else isPrimeLoop n fuel (i + 6)
      else .ok 1

def isPrime (n : UInt32) : Except Fault UInt32 :=
  if n ≤ 3 then .ok (if n > 1 then 1 else 0)
  else if n % 2 = 0 ∨ n % 3 = 0 then .ok 0
  else isPrimeLoop n (2 ^ 32) 5

theorem mod_eq_zero_iff_dvd {n i : UInt32} :
    n % i = 0 ↔ i.toNat ∣ n.toNat := by
  rw [← UInt32.toNat_inj, UInt32.toNat_mod]
  exact (Nat.dvd_iff_mod_eq_zero).symm

/-- A pass of the loop, before the loop variable itself wraps around. -/
theorem isPrimeLoop_pass {n i : UInt32} {fuel : ℕ} (hi : i.toNat % 6 = 5)
    (hlt : i.toNat + 2 < 2 ^ 32) :
    isPrimeLoop n (fuel + 1) i =
      if i.toNat * i.toNat % 2 ^ 32 ≤ n.toNat then
        if i.toNat ∣ n.toNat ∨ i.toNat + 2 ∣ n.toNat then .ok 0
        else isPrimeLoop n fuel (i + 6)
      else .ok 1 := by
  have htwoMore : (i + 2).toNat = i.toNat + 2 := by
    rw [UInt32.toNat_add]
    exact Nat.mod_eq_of_lt hlt
  have hzero : i ≠ 0 := by
    rintro rfl
    simp at hi
  have hzero' : i + 2 ≠ 0 := by
    intro h
    rw [h] at htwoMore
    simp at htwoMore
  have hcontinue : i * i ≤ n ↔ i.toNat * i.toNat % 2 ^ 32 ≤ n.toNat := by
    rw [UInt32.le_iff_toNat_le, UInt32.toNat_mul]
  have hfirst : n % i = 0 ↔ i.toNat ∣ n.toNat := mod_eq_zero_iff_dvd
  have hsecond : n % (i + 2) = 0 ↔ i.toNat + 2 ∣ n.toNat := by
    rw [mod_eq_zero_iff_dvd, htwoMore]
  simp only [isPrimeLoop, hcontinue, hfirst, hsecond, if_neg hzero,
    if_neg hzero']
  by_cases hdvd : i.toNat ∣ n.toNat
  · simp [hdvd]
  · simp [hdvd]

theorem toNat_add_six {i : UInt32} (hlt : i.toNat + 6 < 2 ^ 32) :
    (i + 6).toNat = i.toNat + 6 := by
  rw [UInt32.toNat_add]
  exact Nat.mod_eq_of_lt hlt

theorem isPrimeLoop_succ {n i : UInt32} {fuel : ℕ} (hi : i.toNat % 6 = 5)
    (hle : i.toNat ≤ 65531) :
    isPrimeLoop n (fuel + 1) i =
      if i.toNat * i.toNat ≤ n.toNat then
        if i.toNat ∣ n.toNat ∨ i.toNat + 2 ∣ n.toNat then .ok 0
        else isPrimeLoop n fuel (i + 6)
      else .ok 1 := by
  have hsquare : i.toNat * i.toNat % 2 ^ 32 = i.toNat * i.toNat := by
    have hbound : i.toNat * i.toNat ≤ 65531 * 65531 := Nat.mul_le_mul hle hle
    exact Nat.mod_eq_of_lt (by omega)
  rw [isPrimeLoop_pass hi (by omega), hsquare]

theorem isPrimeLoop_spec {n i : UInt32} {fuel : ℕ}
    (hn : 1 < n.toNat) (hsmall : n.toNat < 65531 * 65531)
    (htwo : ¬2 ∣ n.toNat) (hthree : ¬3 ∣ n.toNat)
    (hi : i.toNat % 6 = 5) (hle : i.toNat ≤ 65531)
    (hunfactored : Unfactored n.toNat i.toNat)
    (hfuel : 65531 < i.toNat + 6 * fuel) :
    isPrimeLoop n fuel i = .ok (if n.toNat.Prime then 1 else 0) := by
  induction fuel generalizing i with
  | zero => omega
  | succ fuel ih =>
      rw [isPrimeLoop_succ hi hle]
      by_cases hcontinue : i.toNat * i.toNat ≤ n.toNat
      · rw [if_pos hcontinue]
        by_cases hdvd : i.toNat ∣ n.toNat ∨ i.toNat + 2 ∣ n.toNat
        · have hprime : ¬n.toNat.Prime := by
            rcases hdvd with hdvd | hdvd
            · exact not_prime_of_candidate (by omega) hcontinue (.inl rfl) hdvd
            · exact not_prime_of_candidate (by omega) hcontinue (.inr rfl) hdvd
          rw [if_pos hdvd, if_neg hprime]
        · have hlt : i.toNat < 65531 := by
            by_contra hge
            have hbound : 65531 * 65531 ≤ i.toNat * i.toNat :=
              Nat.mul_le_mul (by omega) (by omega)
            omega
          have hsixMore := @toNat_add_six i (by omega)
          rw [if_neg hdvd]
          rw [not_or] at hdvd
          apply ih
          · rw [hsixMore]
            omega
          · rw [hsixMore]
            omega
          · rw [hsixMore]
            exact hunfactored.step hi htwo hthree hdvd.1 hdvd.2
          · rw [hsixMore]
            omega
      · have hprime : n.toNat.Prime := hunfactored.prime hn (by omega)
        rw [if_neg hcontinue, if_pos hprime]

theorem isPrime_of_candidate {n : UInt32} (hgt : 3 < n.toNat)
    (htwo : ¬2 ∣ n.toNat) (hthree : ¬3 ∣ n.toNat) :
    isPrime n = isPrimeLoop n (2 ^ 32) 5 := by
  have hlarge : ¬n ≤ 3 := by
    rw [UInt32.le_iff_toNat_le]
    simpa using hgt
  have htwo' : ¬n % 2 = 0 := by
    rwa [mod_eq_zero_iff_dvd]
  have hthree' : ¬n % 3 = 0 := by
    rwa [mod_eq_zero_iff_dvd]
  rw [isPrime, if_neg hlarge, if_neg (not_or.mpr ⟨htwo', hthree'⟩)]

theorem isPrime_of_not_candidate {n : UInt32}
    (hn : n.toNat ≤ 3 ∨ 2 ∣ n.toNat ∨ 3 ∣ n.toNat) :
    isPrime n = .ok (if n.toNat.Prime then 1 else 0) := by
  unfold isPrime
  by_cases htiny : n.toNat ≤ 3
  · have hcases : n = 0 ∨ n = 1 ∨ n = 2 ∨ n = 3 := by
      simp only [← UInt32.toNat_inj]
      simp only [UInt32.reduceToNat]
      omega
    rcases hcases with rfl | rfl | rfl | rfl <;> decide
  · have hlarge : ¬n ≤ 3 := by
      rw [UInt32.le_iff_toNat_le]
      simpa using htiny
    have hdvd : 2 ∣ n.toNat ∨ 3 ∣ n.toNat := hn.resolve_left htiny
    have hsix : n % 2 = 0 ∨ n % 3 = 0 := by
      simp only [mod_eq_zero_iff_dvd]
      exact hdvd
    have hprime : ¬n.toNat.Prime := by
      rcases hdvd with hdvd | hdvd
      · exact Nat.not_prime_of_dvd_of_lt hdvd (by decide) (by omega)
      · exact Nat.not_prime_of_dvd_of_lt hdvd (by decide) (by omega)
    rw [if_neg hlarge, if_pos hsix, if_neg hprime]

/-- The test is right below the square of 65531, so for every `int`. -/
theorem isPrime_spec {n : UInt32} (hsmall : n.toNat < 65531 * 65531) :
    isPrime n = .ok (if n.toNat.Prime then 1 else 0) := by
  by_cases hn : n.toNat ≤ 3 ∨ 2 ∣ n.toNat ∨ 3 ∣ n.toNat
  · exact isPrime_of_not_candidate hn
  · rw [not_or, not_or, not_le] at hn
    rw [isPrime_of_candidate hn.1 hn.2.1 hn.2.2]
    apply isPrimeLoop_spec (by omega) hsmall hn.2.1 hn.2.2
    · rfl
    · decide
    · exact unfactored_five hn.2.1 hn.2.2
    · decide

end Miscellaneous.PrimeTest
