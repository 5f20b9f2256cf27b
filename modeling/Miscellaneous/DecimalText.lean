import Miscellaneous.TextStreams
import Mathlib.Tactic

/-!
# Integers as decimal text

Printing an integer and scanning one: an optional sign and the digits behind
it, as many as there are.  A printed integer is a token that is scanned back.
A reader for a type of bounded integers stores a clamped value where the
number does not fit, and zero where there is no number.
-/

namespace DecimalText

open TextStreams

def printInteger : ℤ → Text
  | .ofNat n => Nat.toDigits 10 n
  | .negSucc n => '-' :: Nat.toDigits 10 (n + 1)

def scanDigits (text : Text) : Option ℕ × Text :=
  let digits := text.takeWhile Char.isDigit
  (if digits = [] then none else some (Nat.ofDigitChars 10 digits 0),
    text.dropWhile Char.isDigit)

def scanInteger : Text → Option ℤ × Text
  | '-' :: text =>
      ((scanDigits text).1.map fun n : ℕ => -(n : ℤ), (scanDigits text).2)
  | '+' :: text =>
      ((scanDigits text).1.map fun n : ℕ => (n : ℤ), (scanDigits text).2)
  | text => ((scanDigits text).1.map fun n : ℕ => (n : ℤ), (scanDigits text).2)

variable {α : Type*}

theorem scanDigits_rest_length_lt {text : Text}
    (hsome : (scanDigits text).1.isSome = true) :
    (scanDigits text).2.length < text.length := by
  have hsplit : text.takeWhile Char.isDigit ++ text.dropWhile Char.isDigit =
      text := List.takeWhile_append_dropWhile
  have hlength := congrArg List.length hsplit
  have hpositive : 0 < (text.takeWhile Char.isDigit).length := by
    by_contra hzero
    have hnil : text.takeWhile Char.isDigit = [] :=
      List.length_eq_zero_iff.mp (by omega)
    simp [scanDigits, hnil] at hsome
  rw [List.length_append] at hlength
  change (text.dropWhile Char.isDigit).length < text.length
  omega

theorem scanInteger_rest_length_lt {text : Text}
    (hsome : (scanInteger text).1.isSome = true) :
    (scanInteger text).2.length < text.length := by
  unfold scanInteger at hsome ⊢
  split at hsome
  · rw [Option.isSome_map] at hsome
    exact (scanDigits_rest_length_lt hsome).trans (Nat.lt_succ_self _)
  · rw [Option.isSome_map] at hsome
    exact (scanDigits_rest_length_lt hsome).trans (Nat.lt_succ_self _)
  · rw [Option.isSome_map] at hsome
    exact scanDigits_rest_length_lt hsome

def integerReader (ofInteger : ℤ → α) (fits : ℤ → Bool) (zero : α) :
    Reader α where
  read text :=
    match (scanInteger text).1 with
    | some z => ⟨ofInteger z, fits z, (scanInteger text).2⟩
    | none => ⟨zero, false, (scanInteger text).2⟩
  rest_length_lt := by
    intro text hok
    cases hscan : (scanInteger text).1 with
    | none => simp [hscan] at hok
    | some z =>
        have hrest := scanInteger_rest_length_lt (by rw [hscan]; rfl)
        simpa [hscan] using hrest

/-! ## Scanning what was printed -/

theorem isSpace_of_isDigit {c : Char} (hdigit : c.isDigit = true) :
    isSpace c = false := by
  by_contra hspace
  rw [Bool.not_eq_false] at hspace
  simp only [isSpace, Bool.or_eq_true, beq_iff_eq] at hspace
  rcases hspace with ((((rfl | rfl) | rfl) | rfl) | rfl) | rfl <;>
    contradiction

theorem isDigit_of_mem_toDigits {n : ℕ} {c : Char}
    (hc : c ∈ Nat.toDigits 10 n) : c.isDigit = true :=
  Nat.isDigit_of_mem_toDigits (by omega) (le_refl 10) hc

theorem scanDigits_toDigits (n : ℕ) {rest : Text}
    (hrest : ∀ c ∈ rest.head?, c.isDigit = false) :
    scanDigits (Nat.toDigits 10 n ++ rest) = (some n, rest) := by
  have hdigits : ∀ c ∈ Nat.toDigits 10 n, c.isDigit = true :=
    fun _ hc => isDigit_of_mem_toDigits hc
  have hne : Nat.toDigits 10 n ≠ [] := Nat.toDigits_ne_nil
  rcases maximal_run hdigits hrest with ⟨htake, hdrop⟩
  simp only [scanDigits, htake, hdrop, if_neg hne,
    Nat.ofDigitChars_ten_toDigits]

theorem scanInteger_printInteger (z : ℤ) {rest : Text}
    (hrest : ∀ c ∈ rest.head?, c.isDigit = false) :
    scanInteger (printInteger z ++ rest) = (some z, rest) := by
  cases z with
  | negSucc n =>
      simp [printInteger, scanInteger, scanDigits_toDigits (n + 1) hrest]
      omega
  | ofNat n =>
      have hscan := scanDigits_toDigits n hrest
      cases htext : Nat.toDigits 10 n with
      | nil => exact absurd htext Nat.toDigits_ne_nil
      | cons c digits =>
          have hc : c.isDigit = true :=
            isDigit_of_mem_toDigits (show c ∈ Nat.toDigits 10 n by simp [htext])
          rw [htext] at hscan
          unfold scanInteger
          simp only [printInteger, htext, List.cons_append]
          split
          · simp_all
          · simp_all
          · simp_all

theorem reads_printInteger {ofInteger : ℤ → α} {fits : ℤ → Bool} {zero : α}
    {z : ℤ} (hfits : fits z = true) :
    Reads (integerReader ofInteger fits zero) (printInteger z)
      (ofInteger z) := by
  have hchars : ∀ c ∈ printInteger z, c = '-' ∨ c.isDigit = true := by
    cases z with
    | ofNat n =>
        intro c hc
        exact .inr (isDigit_of_mem_toDigits hc)
    | negSucc n =>
        intro c hc
        rcases List.mem_cons.mp hc with rfl | hc
        · exact .inl rfl
        · exact .inr (isDigit_of_mem_toDigits hc)
  constructor
  · cases z <;> simp [printInteger]
  · intro c hc
    rcases hchars c hc with rfl | hdigit
    · rfl
    · exact isSpace_of_isDigit hdigit
  · intro rest hrest
    have hstop : ∀ c ∈ rest.head?, c.isDigit = false := by
      intro c hc
      by_contra hdigit
      rw [Bool.not_eq_false] at hdigit
      have hspace := isSpace_of_isDigit hdigit
      rw [hrest c hc] at hspace
      contradiction
    simp [integerReader, scanInteger_printInteger z hstop, hfits]

end DecimalText
