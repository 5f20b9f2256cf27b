import Miscellaneous.PrimeTest
import Mathlib.NumberTheory.LucasPrimality
import Mathlib.Tactic

/-!
# The prime test on the largest words

For a prime from the square of 65531 on the loop goes on with squares that
wrap around, and it ends well if one of them exceeds the number before the loop
variable reaches it.  The square of 34716455 wraps around to `2 ^ 32 - 15`, which
is enough for every prime but the largest one: no square of an odd word exceeds
`2 ^ 32 - 7`.
-/

namespace Miscellaneous.PrimeTest

open TrialDivision

/-! ## Numbers from the square of 65531 on -/

/-- A number that is not prime has a candidate as a divisor in time. -/
theorem isPrimeLoop_of_not_prime {n i : UInt32} {fuel : ℕ}
    (hlarge : 65531 * 65531 ≤ n.toNat) (hprime : ¬n.toNat.Prime)
    (htwo : ¬2 ∣ n.toNat) (hthree : ¬3 ∣ n.toNat)
    (hi : i.toNat % 6 = 5) (hle : i.toNat ≤ 65531)
    (hunfactored : Unfactored n.toNat i.toNat)
    (hfuel : 65531 < i.toNat + 6 * fuel) :
    isPrimeLoop n fuel i = .ok 0 := by
  induction fuel generalizing i with
  | zero => omega
  | succ fuel ih =>
      have hcontinue : i.toNat * i.toNat ≤ n.toNat :=
        (Nat.mul_le_mul hle hle).trans hlarge
      rw [isPrimeLoop_succ hi hle, if_pos hcontinue]
      by_cases hdvd : i.toNat ∣ n.toNat ∨ i.toNat + 2 ∣ n.toNat
      · rw [if_pos hdvd]
      · rw [if_neg hdvd]
        rw [not_or] at hdvd
        have hmore : Unfactored n.toNat (i.toNat + 6) :=
          hunfactored.step hi htwo hthree hdvd.1 hdvd.2
        have hlt : i.toNat < 65531 := by
          by_contra hge
          have hlast : i.toNat = 65531 := by omega
          have hbound : n.toNat < 2 ^ 32 := n.toNat_lt
          rw [hlast] at hmore
          exact hprime (hmore.prime (by omega) (by omega))
        have hsixMore := @toNat_add_six i (by omega)
        rw [← hsixMore] at hmore
        apply ih
        · omega
        · omega
        · exact hmore
        · omega

/-- A prime is recognised at the first square that exceeds it. -/
theorem isPrimeLoop_of_prime {n i : UInt32} {fuel stop : ℕ}
    (hprime : n.toNat.Prime) (hi : i.toNat % 6 = 5)
    (hle : i.toNat ≤ stop) (hstop : stop % 6 = 5) (hlt : stop + 2 < n.toNat)
    (hsquare : n.toNat < stop * stop % 2 ^ 32)
    (hfuel : stop < i.toNat + 6 * fuel) :
    isPrimeLoop n fuel i = .ok 1 := by
  induction fuel generalizing i with
  | zero => omega
  | succ fuel ih =>
      have hbound : n.toNat < 2 ^ 32 := n.toNat_lt
      rw [isPrimeLoop_pass hi (by omega)]
      by_cases hcontinue : i.toNat * i.toNat % 2 ^ 32 ≤ n.toNat
      · have hne : i.toNat ≠ stop := by
          intro hsame
          rw [hsame] at hcontinue
          omega
        have hdvd : ¬(i.toNat ∣ n.toNat ∨ i.toNat + 2 ∣ n.toNat) := by
          rw [hprime.dvd_iff_eq (by omega), hprime.dvd_iff_eq (by omega)]
          omega
        have hsixMore := @toNat_add_six i (by omega)
        rw [if_pos hcontinue, if_neg hdvd]
        apply ih
        · omega
        · omega
        · omega
      · rw [if_neg hcontinue]

theorem isPrime_of_prime {n : UInt32} (hprime : n.toNat.Prime)
    (hlarge : 65531 * 65531 ≤ n.toNat) (hlt : n.toNat < 2 ^ 32 - 15) :
    isPrime n = .ok 1 := by
  have htwo : ¬2 ∣ n.toNat := by
    rw [hprime.dvd_iff_eq (by decide)]
    omega
  have hthree : ¬3 ∣ n.toNat := by
    rw [hprime.dvd_iff_eq (by decide)]
    omega
  rw [isPrime_of_candidate (by omega) htwo hthree]
  apply @isPrimeLoop_of_prime n 5 (2 ^ 32) 34716455 hprime
  · rfl
  · decide
  · decide
  · omega
  · omega
  · decide

/-! ## The largest prime -/

/-- The loop goes on up to a word that no odd square exceeds, and divides it by
itself. -/
theorem isPrimeLoop_of_last {n i : UInt32} {fuel : ℕ}
    (hn : n.toNat % 6 = 5) (hlast : 2 ^ 32 - 7 ≤ n.toNat)
    (hi : i.toNat % 6 = 5) (hle : i.toNat ≤ n.toNat)
    (hfuel : n.toNat < i.toNat + 6 * fuel) :
    isPrimeLoop n fuel i = .ok 0 := by
  induction fuel generalizing i with
  | zero => omega
  | succ fuel ih =>
      have hbound : n.toNat < 2 ^ 32 := n.toNat_lt
      have hcontinue : i.toNat * i.toNat % 2 ^ 32 ≤ n.toNat := by
        have hodd : i.toNat * i.toNat % 8 = 1 := by
          have hcases : i.toNat % 8 = 1 ∨ i.toNat % 8 = 3 ∨ i.toNat % 8 = 5 ∨
              i.toNat % 8 = 7 := by omega
          rcases hcases with h | h | h | h <;> simp [Nat.mul_mod, h]
        omega
      rw [isPrimeLoop_pass hi (by omega), if_pos hcontinue]
      by_cases hdvd : i.toNat ∣ n.toNat ∨ i.toNat + 2 ∣ n.toNat
      · rw [if_pos hdvd]
      · have hne : i.toNat ≠ n.toNat := by
          intro hsame
          exact hdvd (Or.inl (dvd_of_eq hsame))
        have hsixMore := @toNat_add_six i (by omega)
        rw [if_neg hdvd]
        apply ih
        · omega
        · omega
        · omega

theorem isPrime_last : isPrime 4294967291 = .ok 0 := by
  rw [isPrime_of_candidate (by decide) (by decide) (by decide)]
  apply isPrimeLoop_of_last
  · decide
  · decide
  · decide
  · decide
  · decide

theorem prime_factor_last {q : ℕ} (hq : q.Prime)
    (hdvd : q ∣ 4294967291 - 1) :
    q = 2 ∨ q = 5 ∨ q = 19 ∨ q = 22605091 := by
  have hprod : 4294967291 - 1 = 2 * 5 * 19 * 22605091 := by norm_num
  rw [hprod, hq.dvd_mul, hq.dvd_mul, hq.dvd_mul,
    Nat.prime_dvd_prime_iff_eq hq (by norm_num),
    Nat.prime_dvd_prime_iff_eq hq (by norm_num),
    Nat.prime_dvd_prime_iff_eq hq (by norm_num),
    Nat.prime_dvd_prime_iff_eq hq (by norm_num)] at hdvd
  rcases hdvd with ((h | h) | h) | h
  · exact Or.inl h
  · exact Or.inr (Or.inl h)
  · exact Or.inr (Or.inr (Or.inl h))
  · exact Or.inr (Or.inr (Or.inr h))

/-- Two generates the units. -/
theorem prime_last : Nat.Prime 4294967291 := by
  apply lucas_primality 4294967291 (2 : ZMod 4294967291)
  · norm_num
    reduce_mod_char
  · intro q hq hdvd
    rcases prime_factor_last hq hdvd with rfl | rfl | rfl | rfl
    all_goals
      norm_num
      reduce_mod_char
      decide +kernel

theorem eq_last_of_prime {n : ℕ} (hprime : n.Prime) (hle : 2 ^ 32 - 15 ≤ n)
    (hlt : n < 2 ^ 32) : n = 4294967291 := by
  have htwo : ¬2 ∣ n := by
    rw [hprime.dvd_iff_eq (by decide)]
    omega
  have hthree : ¬3 ∣ n := by
    rw [hprime.dvd_iff_eq (by decide)]
    omega
  have hcases : n = 4294967281 ∨ n = 4294967285 ∨ n = 4294967287 ∨
      n = 4294967291 ∨ n = 4294967293 := by omega
  have hfactor : ∀ d, d ∣ n → 2 ≤ d → d < n → False := by
    intro d hdvd hd hdn
    rw [hprime.dvd_iff_eq (by omega)] at hdvd
    omega
  rcases hcases with h | h | h | h | h
  · exact (hfactor 11 (by omega) (by decide) (by omega)).elim
  · exact (hfactor 5 (by omega) (by decide) (by omega)).elim
  · exact (hfactor 13 (by omega) (by decide) (by omega)).elim
  · exact h
  · exact (hfactor 9241 (by omega) (by decide) (by omega)).elim

/-! ## The test on every word -/

theorem isPrime_last_ne :
    isPrime 4294967291 ≠
      .ok (if (4294967291 : UInt32).toNat.Prime then 1 else 0) := by
  have hprime : (4294967291 : UInt32).toNat.Prime := prime_last
  rw [isPrime_last, if_pos hprime, Ne, Except.ok.injEq]
  decide

/-- The test ends, divides by no zero, and is right for all words but one. -/
theorem isPrime_correct_iff (n : UInt32) :
    isPrime n = .ok (if n.toNat.Prime then 1 else 0) ↔ n ≠ 4294967291 := by
  constructor
  · intro hright hlast
    rw [hlast] at hright
    exact isPrime_last_ne hright
  · intro hne
    by_cases hn : n.toNat ≤ 3 ∨ 2 ∣ n.toNat ∨ 3 ∣ n.toNat
    · exact isPrime_of_not_candidate hn
    by_cases hsmall : n.toNat < 65531 * 65531
    · exact isPrime_spec hsmall
    rw [not_lt] at hsmall
    by_cases hprime : n.toNat.Prime
    · rw [if_pos hprime]
      apply isPrime_of_prime hprime hsmall
      by_contra hlast
      apply hne
      rw [← UInt32.toNat_inj]
      exact eq_last_of_prime hprime (by omega) n.toNat_lt
    · rw [not_or, not_or, not_le] at hn
      rw [if_neg hprime, isPrime_of_candidate hn.1 hn.2.1 hn.2.2]
      apply isPrimeLoop_of_not_prime hsmall hprime hn.2.1 hn.2.2
      · rfl
      · decide
      · exact unfactored_five hn.2.1 hn.2.2
      · decide

theorem isPrime_correct_fails :
    ¬∀ n : UInt32, isPrime n = .ok (if n.toNat.Prime then 1 else 0) := by
  intro hall
  exact isPrime_last_ne (hall 4294967291)

end Miscellaneous.PrimeTest
