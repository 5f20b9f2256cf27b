import Miscellaneous.DecimalText
import Miscellaneous.Regexes
import Mathlib.Tactic

/-!
# Dates that are typed in

The last part of `test_regex` in `main.cpp`: a line after the other is read
until a line `q` or the end of the input, each is matched against the pattern
of a date, and the three groups of a match are converted to numbers.

A line is accepted exactly if it spells a date with a year of four digits, a
month and a day, each of these with or without a leading zero, and then the
numbers printed are the ones spelled.  The pattern knows no lengths of months.
-/

namespace Miscellaneous.DateInput

open DecimalText Regexes TextStreams

/-! ## The pattern -/

def literal (c : Char) : Regex Char := .symbol fun d => d == c

def between (low high : Char) : Regex Char :=
  .symbol fun c => decide (low ≤ c) && decide (c ≤ high)

/-- `\d{4}`. -/
def yearRegex : Regex Char := times (.symbol Char.isDigit) 4

/-- `0?[1-9]|1[0-2]`. -/
def monthRegex : Regex Char :=
  .alt (.seq (maybe (literal '0')) (between '1' '9'))
    (.seq (literal '1') (between '0' '2'))

/-- `0?[1-9]|[1-2][0-9]|3[0-1]`. -/
def dayRegex : Regex Char :=
  .alt (.seq (maybe (literal '0')) (between '1' '9'))
    (.alt (.seq (between '1' '2') (between '0' '9'))
      (.seq (literal '3') (between '0' '1')))

def r : Regex Char :=
  .seq (.group 1 yearRegex) (.seq (literal '/')
    (.seq (.group 2 monthRegex) (.seq (literal '/') (.group 3 dayRegex))))

/-! ## The loop -/

/-- `m[index]` of a match. -/
def subMatch (m : Captures Char) (index : ℕ) : Text :=
  ((m.reverse.find? fun group => group.1 == index).map Prod.snd).getD []

/-- `std::stoi`, `none` where it raises an exception. -/
def stoi (text : Text) : Option ℤ :=
  match (scanInteger (text.dropWhile isSpace)).1 with
  | none => none
  | some z => if -2 ^ 31 ≤ z ∧ z < 2 ^ 31 then some z else none

inductive Answer where
  | valid (year month day : ℤ)
  | invalid
  deriving DecidableEq

def prompt : Text := "Enter a date (year/month/day) (q=quit): ".toList

def Answer.text : Answer → Text
  | .valid year month day =>
      " Valid date: Year = ".toList ++ printInteger year ++
        ", month = ".toList ++ printInteger month ++ ", day = ".toList ++
          printInteger day ++ ['\n']
  | .invalid => " Invalid date!\n".toList

/-- The answer to a line, `none` if an exception leaves the loop. -/
def answer (line : Text) : Option Answer :=
  match regexMatch r line with
  | some m => do
      let year ← stoi (subMatch m 1)
      let month ← stoi (subMatch m 2)
      let day ← stoi (subMatch m 3)
      return .valid year month day
  | none => some .invalid

/-- A bound on the lines that can still be read. -/
def unread (s : Stream) : ℕ := if s.good then s.rest.length + 1 else 0

theorem unread_getline_lt {s : Stream} {line : Text}
    (hfail : (getline s line).1.fail = false) :
    unread (getline s line).1 < unread s := by
  unfold getline at hfail ⊢
  split_ifs at hfail ⊢ with hgood
  have hunread : unread s = s.rest.length + 1 := if_pos hgood
  have hlength := List.length_dropWhile_le (· != '\n') s.rest
  rw [hunread]
  cases hdrop : s.rest.dropWhile (· != '\n') with
  | nil => simp [unread, Stream.good]
  | cons c rest =>
      rw [hdrop, List.length_cons] at hlength
      have hrest : unread (Stream.start rest) = rest.length + 1 := rfl
      change unread (Stream.start rest) < _
      omega

/-- The answers of the loop. -/
def dateLoop (s : Stream) : Option (List Answer) :=
  if _h : (getline s []).1.fail = true ∨ (getline s []).2 = ['q'] then some []
  else do
    let first ← answer (getline s []).2
    let others ← dateLoop (getline s []).1
    return first :: others
termination_by unread s
decreasing_by
  rw [not_or, Bool.not_eq_true] at _h
  exact unread_getline_lt _h.1

/-- Everything that the loop prints for an input. -/
def printed (input : Text) : Option Text :=
  (dateLoop (Stream.start input)).map fun answers =>
    answers.flatMap (fun given => prompt ++ given.text) ++ prompt

/-! ## Dates and their spellings -/

def digits (ks : List ℕ) : Text := ks.map Nat.digitChar

def fourDigits (n : ℕ) : Text :=
  digits [n / 1000, n / 100 % 10, n / 10 % 10, n % 10]

def twoDigits (padded : Bool) (n : ℕ) : Text :=
  if n < 10 ∧ padded = false then digits [n] else digits [n / 10, n % 10]

structure Date where
  year : ℕ
  month : ℕ
  day : ℕ
  year_lt : year < 10000
  month_mem : month ∈ Set.Icc 1 12
  day_mem : day ∈ Set.Icc 1 31

def Date.text (date : Date) (padMonth padDay : Bool) : Text :=
  fourDigits date.year ++ '/' :: (twoDigits padMonth date.month ++
    '/' :: twoDigits padDay date.day)

/-- The line is a spelling of the date. -/
def Date.SpelledAs (date : Date) (line : Text) : Prop :=
  ∃ padMonth padDay, line = date.text padMonth padDay

/-! ## What the pattern matches -/

/-- The expression matches the digits with a property, one at a time. -/
def IsDigit (r : Regex Char) (P : ℕ → Prop) : Prop :=
  ∀ text captures, Matches r text captures ↔
    (∃ k, P k ∧ text = digits [k]) ∧ captures = []

theorem isDigit_literal (k : ℕ) : IsDigit (literal (Nat.digitChar k)) (· = k) := by
  intro text captures
  rw [literal, matches_symbol_iff]
  simp [digits]

theorem toNat_digitChar {k : ℕ} (hk : k < 10) : (Nat.digitChar k).toNat = 48 + k := by
  revert k
  decide

theorem isDigit_between {m n : ℕ} (hm : m < 10) (hn : n < 10) :
    IsDigit (between (Nat.digitChar m) (Nat.digitChar n))
      (fun k => m ≤ k ∧ k ≤ n) := by
  intro text captures
  rw [between, matches_symbol_iff]
  simp only [Bool.and_eq_true, decide_eq_true_eq]
  apply and_congr_left
  intro _
  constructor
  · rintro ⟨c, ⟨hlow, hhigh⟩, rfl⟩
    have hfirst : (Nat.digitChar m).toNat ≤ c.toNat := hlow
    have hlast : c.toNat ≤ (Nat.digitChar n).toNat := hhigh
    rw [toNat_digitChar hm] at hfirst
    rw [toNat_digitChar hn] at hlast
    refine ⟨c.toNat - 48, by omega, ?_⟩
    have hcode : c = Nat.digitChar (c.toNat - 48) := by
      apply Char.toNat_inj.mp
      rw [toNat_digitChar (by omega)]
      omega
    rw [digits, List.map_singleton, ← hcode]
  · rintro ⟨k, ⟨hlow, hhigh⟩, rfl⟩
    refine ⟨Nat.digitChar k, ⟨?_, ?_⟩, rfl⟩
    · change (Nat.digitChar m).toNat ≤ (Nat.digitChar k).toNat
      rw [toNat_digitChar hm, toNat_digitChar (by omega)]
      omega
    · change (Nat.digitChar k).toNat ≤ (Nat.digitChar n).toNat
      rw [toNat_digitChar hn, toNat_digitChar (by omega)]
      omega

/-- A digit with or without a zero in front. -/
theorem IsDigit.matches_maybe_zero_iff {r : Regex Char} {P : ℕ → Prop}
    (hr : IsDigit r P) {text : Text} {captures : Captures Char} :
    Matches (.seq (maybe (literal '0')) r) text captures ↔
      (∃ k, P k ∧ (text = digits [k] ∨ text = digits [0, k])) ∧
        captures = [] := by
  have hzero : IsDigit (literal '0') (· = 0) := isDigit_literal 0
  rw [matches_seq_iff, maybe]
  simp only [matches_alt_iff, matches_empty_iff, hzero _ _, hr _ _]
  constructor
  · rintro ⟨front, back, groups, others, rfl, rfl,
      ⟨⟨z, rfl, rfl⟩, rfl⟩ | ⟨rfl, rfl⟩, ⟨k, hk, rfl⟩, rfl⟩
    · exact ⟨⟨k, hk, Or.inr rfl⟩, rfl⟩
    · exact ⟨⟨k, hk, Or.inl rfl⟩, rfl⟩
  · rintro ⟨⟨k, hk, rfl | rfl⟩, rfl⟩
    · exact ⟨[], digits [k], [], [], rfl, rfl, Or.inr ⟨rfl, rfl⟩,
        ⟨k, hk, rfl⟩, rfl⟩
    · exact ⟨digits [0], digits [k], [], [], rfl, rfl,
        Or.inl ⟨⟨0, rfl, rfl⟩, rfl⟩, ⟨k, hk, rfl⟩, rfl⟩

theorem IsDigit.matches_seq_iff {first second : Regex Char} {P Q : ℕ → Prop}
    (hfirst : IsDigit first P) (hsecond : IsDigit second Q) {text : Text}
    {captures : Captures Char} :
    Matches (.seq first second) text captures ↔
      (∃ j k, P j ∧ Q k ∧ text = digits [j, k]) ∧ captures = [] := by
  rw [Regexes.matches_seq_iff]
  simp only [hfirst _ _, hsecond _ _]
  constructor
  · rintro ⟨front, back, groups, others, rfl, rfl, ⟨⟨j, hj, rfl⟩, rfl⟩,
      ⟨k, hk, rfl⟩, rfl⟩
    exact ⟨⟨j, k, hj, hk, rfl⟩, rfl⟩
  · rintro ⟨⟨j, k, hj, hk, rfl⟩, rfl⟩
    exact ⟨digits [j], digits [k], [], [], rfl, rfl, ⟨⟨j, hj, rfl⟩, rfl⟩,
      ⟨k, hk, rfl⟩, rfl⟩

theorem twoDigits_of_lt {n : ℕ} (hn : n < 10) (text : Text) :
    (∃ padded, text = twoDigits padded n) ↔
      text = digits [n] ∨ text = digits [0, n] := by
  have hfalse : twoDigits false n = digits [n] := if_pos ⟨hn, rfl⟩
  have htrue : twoDigits true n = digits [0, n] := by
    rw [twoDigits, if_neg (by simp), Nat.div_eq_of_lt hn, Nat.mod_eq_of_lt hn]
  rw [Bool.exists_bool, hfalse, htrue]

theorem twoDigits_of_le {n : ℕ} (hn : 10 ≤ n) (text : Text) :
    (∃ padded, text = twoDigits padded n) ↔
      text = digits [n / 10, n % 10] := by
  have hboth : ∀ padded, twoDigits padded n = digits [n / 10, n % 10] :=
    fun padded => if_neg (by omega)
  simp only [hboth, exists_const]

theorem matches_monthRegex_iff {text : Text} {captures : Captures Char} :
    Matches monthRegex text captures ↔
      (∃ n ∈ Set.Icc 1 12, ∃ padded, text = twoDigits padded n) ∧
        captures = [] := by
  have hlow : IsDigit (between '1' '9') (fun k => 1 ≤ k ∧ k ≤ 9) :=
    @isDigit_between 1 9 (by decide) (by decide)
  have hone : IsDigit (literal '1') (· = 1) := isDigit_literal 1
  have hhigh : IsDigit (between '0' '2') (fun k => 0 ≤ k ∧ k ≤ 2) :=
    @isDigit_between 0 2 (by decide) (by decide)
  rw [monthRegex, matches_alt_iff, hlow.matches_maybe_zero_iff,
    hone.matches_seq_iff hhigh, ← or_and_right]
  apply and_congr_left
  intro _
  constructor
  · rintro (⟨k, hk, htext⟩ | ⟨j, k, rfl, hk, htext⟩)
    · exact ⟨k, ⟨hk.1, by omega⟩, (twoDigits_of_lt (by omega) text).mpr htext⟩
    · refine ⟨10 + k, ⟨by omega, by omega⟩,
        (twoDigits_of_le (by omega) text).mpr ?_⟩
      have hdiv : (10 + k) / 10 = 1 := by omega
      have hmod : (10 + k) % 10 = k := by omega
      rw [htext, hdiv, hmod]
  · rintro ⟨n, hn, hpadded⟩
    by_cases hlt : n < 10
    · left
      exact ⟨n, ⟨hn.1, by omega⟩, (twoDigits_of_lt hlt text).mp hpadded⟩
    · right
      have hle := hn.2
      refine ⟨n / 10, n % 10, by omega, by omega, ?_⟩
      exact (twoDigits_of_le (by omega) text).mp hpadded

theorem matches_dayRegex_iff {text : Text} {captures : Captures Char} :
    Matches dayRegex text captures ↔
      (∃ n ∈ Set.Icc 1 31, ∃ padded, text = twoDigits padded n) ∧
        captures = [] := by
  have hlow : IsDigit (between '1' '9') (fun k => 1 ≤ k ∧ k ≤ 9) :=
    @isDigit_between 1 9 (by decide) (by decide)
  have htens : IsDigit (between '1' '2') (fun k => 1 ≤ k ∧ k ≤ 2) :=
    @isDigit_between 1 2 (by decide) (by decide)
  have hany : IsDigit (between '0' '9') (fun k => 0 ≤ k ∧ k ≤ 9) :=
    @isDigit_between 0 9 (by decide) (by decide)
  have hthree : IsDigit (literal '3') (· = 3) := isDigit_literal 3
  have hlast : IsDigit (between '0' '1') (fun k => 0 ≤ k ∧ k ≤ 1) :=
    @isDigit_between 0 1 (by decide) (by decide)
  rw [dayRegex, matches_alt_iff, matches_alt_iff, hlow.matches_maybe_zero_iff,
    htens.matches_seq_iff hany, hthree.matches_seq_iff hlast, ← or_and_right,
    ← or_and_right]
  apply and_congr_left
  intro _
  have htwo : ∀ j k, j ≤ 9 → k ≤ 9 → 1 ≤ j →
      text = digits [j, k] → ∃ padded, text = twoDigits padded (10 * j + k) := by
    intro j k hj hk hpositive htext
    have hdiv : (10 * j + k) / 10 = j := by omega
    have hmod : (10 * j + k) % 10 = k := by omega
    rw [twoDigits_of_le (by omega), hdiv, hmod]
    exact htext
  constructor
  · rintro (⟨k, hk, htext⟩ | ⟨j, k, hj, hk, htext⟩ | ⟨j, k, rfl, hk, htext⟩)
    · exact ⟨k, ⟨hk.1, by omega⟩, (twoDigits_of_lt (by omega) text).mpr htext⟩
    · exact ⟨10 * j + k, ⟨by omega, by omega⟩,
        htwo j k (by omega) hk.2 hj.1 htext⟩
    · exact ⟨10 * 3 + k, ⟨by omega, by omega⟩,
        htwo 3 k (by omega) (by omega) (by omega) htext⟩
  · rintro ⟨n, hn, hpadded⟩
    by_cases hlt : n < 10
    · left
      exact ⟨n, ⟨hn.1, by omega⟩, (twoDigits_of_lt hlt text).mp hpadded⟩
    · right
      have hle := hn.2
      have htext := (twoDigits_of_le (by omega) text).mp hpadded
      by_cases hthirty : n < 30
      · left
        exact ⟨n / 10, n % 10, by omega, by omega, htext⟩
      · right
        exact ⟨n / 10, n % 10, by omega, by omega, htext⟩

theorem digits_of_forall_isDigit {text : Text}
    (htext : ∀ c ∈ text, c.isDigit = true) :
    ∃ ks : List ℕ, (∀ k ∈ ks, k < 10) ∧ text = digits ks := by
  induction text with
  | nil => exact ⟨[], by simp, rfl⟩
  | cons c text ih =>
      rw [List.forall_mem_cons] at htext
      rcases ih htext.2 with ⟨ks, hks, hsame⟩
      have hc : 48 ≤ c.toNat ∧ c.toNat ≤ 57 := by
        have hdigit := htext.1
        rw [Char.isDigit, Bool.and_eq_true, decide_eq_true_eq,
          decide_eq_true_eq] at hdigit
        exact ⟨hdigit.1, hdigit.2⟩
      have hcode : c = Nat.digitChar (c.toNat - 48) := by
        apply Char.toNat_inj.mp
        rw [toNat_digitChar (by omega)]
        omega
      refine ⟨(c.toNat - 48) :: ks, ?_, ?_⟩
      · exact List.forall_mem_cons.mpr ⟨by omega, hks⟩
      · rw [digits, List.map_cons, ← hcode, hsame, digits]

theorem isDigit_of_mem_digits {ks : List ℕ} (hks : ∀ k ∈ ks, k < 10) :
    ∀ c ∈ digits ks, c.isDigit = true := by
  intro c hc
  rcases List.mem_map.mp hc with ⟨k, hk, rfl⟩
  have hall : ∀ k < 10, (Nat.digitChar k).isDigit = true := by decide
  exact hall k (hks k hk)

theorem matches_yearRegex_iff {text : Text} {captures : Captures Char} :
    Matches yearRegex text captures ↔
      (∃ n < 10000, text = fourDigits n) ∧ captures = [] := by
  rw [yearRegex, matches_times_symbol_iff]
  apply and_congr_left
  intro _
  constructor
  · rintro ⟨hlength, hall⟩
    rcases digits_of_forall_isDigit hall with ⟨ks, hks, htext⟩
    have hfour : ks.length = 4 := by
      rw [htext, digits, List.length_map] at hlength
      exact hlength
    rcases List.length_eq_four.mp hfour with ⟨a, b, c, d, rfl⟩
    simp only [List.forall_mem_cons, List.not_mem_nil, false_imp_iff,
      implies_true, and_true] at hks
    refine ⟨1000 * a + 100 * b + 10 * c + d, by omega, ?_⟩
    have ha : (1000 * a + 100 * b + 10 * c + d) / 1000 = a := by omega
    have hb : (1000 * a + 100 * b + 10 * c + d) / 100 % 10 = b := by omega
    have hc : (1000 * a + 100 * b + 10 * c + d) / 10 % 10 = c := by omega
    have hd : (1000 * a + 100 * b + 10 * c + d) % 10 = d := by omega
    rw [fourDigits, ha, hb, hc, hd]
    exact htext
  · rintro ⟨n, hn, rfl⟩
    refine ⟨rfl, isDigit_of_mem_digits ?_⟩
    simp only [List.forall_mem_cons, List.not_mem_nil, false_imp_iff,
      implies_true, and_true]
    omega

/-! ## The numbers of the groups -/

theorem ofDigitChars_digits {ks : List ℕ} (hks : ∀ k ∈ ks, k < 10) (n : ℕ) :
    Nat.ofDigitChars 10 (digits ks) n = ks.foldl (fun n k => 10 * n + k) n := by
  induction ks generalizing n with
  | nil => rfl
  | cons k ks ih =>
      rw [List.forall_mem_cons] at hks
      rw [digits, List.map_cons,
        Nat.ofDigitChars_cons_digitChar_of_lt_ten hks.1, List.foldl_cons]
      exact ih hks.2 _

theorem stoi_digits {ks : List ℕ} (hne : ks ≠ []) (hks : ∀ k ∈ ks, k < 10)
    (hfits : ks.foldl (fun n k => 10 * n + k) 0 < 2 ^ 31) :
    stoi (digits ks) = some (ks.foldl (fun n k => 10 * n + k) 0 : ℕ) := by
  have hall := isDigit_of_mem_digits hks
  have hnil : digits ks ≠ [] := by
    rw [digits, ne_eq, List.map_eq_nil_iff]
    exact hne
  have hdigits : (scanDigits (digits ks)).1 =
      some (ks.foldl (fun n k => 10 * n + k) 0) := by
    have htake : (digits ks).takeWhile Char.isDigit = digits ks :=
      List.takeWhile_eq_self_iff.mpr hall
    rw [scanDigits]
    simp only [htake, if_neg hnil, ofDigitChars_digits hks]
  have hscan : (scanInteger (digits ks)).1 =
      some ((ks.foldl (fun n k => 10 * n + k) 0 : ℕ) : ℤ) := by
    unfold scanInteger
    split
    · rename_i htext
      have hminus := hall '-' (by rw [htext]; exact List.mem_cons_self)
      cases hminus
    · rename_i htext
      have hplus := hall '+' (by rw [htext]; exact List.mem_cons_self)
      cases hplus
    · rw [hdigits]
      rfl
  have hspace : (digits ks).dropWhile isSpace = digits ks := by
    rcases hcase : digits ks with _ | ⟨c, rest⟩
    · exact absurd hcase hnil
    · have hc := isSpace_of_isDigit (hall c (by rw [hcase]; exact List.mem_cons_self))
      rw [List.dropWhile_cons_of_neg (by rw [hc]; simp)]
  have hupper : ((ks.foldl (fun n k => 10 * n + k) 0 : ℕ) : ℤ) < 2 ^ 31 := by
    exact_mod_cast hfits
  have hlower : (-2 ^ 31 : ℤ) ≤ (ks.foldl (fun n k => 10 * n + k) 0 : ℕ) :=
    le_trans (by norm_num) (Int.natCast_nonneg _)
  rw [stoi, hspace, hscan]
  exact if_pos ⟨hlower, hupper⟩

theorem stoi_fourDigits {n : ℕ} (hn : n < 10000) :
    stoi (fourDigits n) = some (n : ℤ) := by
  have hvalue : [n / 1000, n / 100 % 10, n / 10 % 10, n % 10].foldl
      (fun n k => 10 * n + k) 0 = n := by
    simp only [List.foldl_cons, List.foldl_nil]
    omega
  have hstoi := @stoi_digits [n / 1000, n / 100 % 10, n / 10 % 10, n % 10]
    (by simp) (by simp; omega) (by rw [hvalue]; omega)
  rwa [hvalue] at hstoi

theorem stoi_twoDigits {n : ℕ} (hn : n < 100) (padded : Bool) :
    stoi (twoDigits padded n) = some (n : ℤ) := by
  rw [twoDigits]
  split_ifs with hshort
  · have hstoi := @stoi_digits [n] (by simp) (by simp; omega) (by simp; omega)
    simpa using hstoi
  · have hvalue : [n / 10, n % 10].foldl (fun n k => 10 * n + k) 0 = n := by
      simp only [List.foldl_cons, List.foldl_nil]
      omega
    have hstoi := @stoi_digits [n / 10, n % 10] (by simp) (by simp; omega)
      (by rw [hvalue]; omega)
    rwa [hvalue] at hstoi

/-! ## The answers -/

theorem matches_r_iff {line : Text} {captures : Captures Char} :
    Matches r line captures ↔
      ∃ (date : Date) (padMonth padDay : Bool),
        line = date.text padMonth padDay ∧
        captures = [(1, fourDigits date.year), (2, twoDigits padMonth date.month),
          (3, twoDigits padDay date.day)] := by
  rw [r]
  simp only [matches_seq_iff, matches_group_iff, literal, matches_symbol_iff,
    matches_yearRegex_iff, matches_monthRegex_iff, matches_dayRegex_iff]
  constructor
  · rintro ⟨yearText, _, _, _, rfl, rfl, ⟨_, rfl, ⟨year, hyear, rfl⟩, rfl⟩,
      _, _, _, _, rfl, rfl, ⟨⟨first, hfirst, rfl⟩, rfl⟩,
      _, _, _, _, rfl, rfl, ⟨_, rfl, ⟨month, hmonth, padMonth, rfl⟩, rfl⟩,
      _, _, _, _, rfl, rfl, ⟨⟨second, hsecond, rfl⟩, rfl⟩,
      _, rfl, ⟨day, hday, padDay, rfl⟩, rfl⟩
    rw [beq_iff_eq] at hfirst hsecond
    subst hfirst hsecond
    exact ⟨⟨year, month, day, hyear, hmonth, hday⟩, padMonth, padDay, rfl, rfl⟩
  · rintro ⟨date, padMonth, padDay, rfl, rfl⟩
    exact ⟨fourDigits date.year, _, _, _, rfl, rfl,
      ⟨[], rfl, ⟨date.year, date.year_lt, rfl⟩, rfl⟩,
      ['/'], _, [], _, rfl, rfl, ⟨⟨'/', rfl, rfl⟩, rfl⟩,
      twoDigits padMonth date.month, _, _, _, rfl, rfl,
      ⟨[], rfl, ⟨date.month, date.month_mem, padMonth, rfl⟩, rfl⟩,
      ['/'], _, [], _, rfl, rfl, ⟨⟨'/', rfl, rfl⟩, rfl⟩,
      [], rfl, ⟨date.day, date.day_mem, padDay, rfl⟩, rfl⟩

theorem slash_not_mem_digits (ks : List ℕ) (hks : ∀ k ∈ ks, k < 10) :
    '/' ∉ digits ks := by
  intro hmem
  cases isDigit_of_mem_digits hks '/' hmem

theorem slash_not_mem_twoDigits {n : ℕ} (hn : n < 100) (padded : Bool) :
    '/' ∉ twoDigits padded n := by
  rw [twoDigits]
  split_ifs with hshort
  · exact slash_not_mem_digits _ (by simp; omega)
  · exact slash_not_mem_digits _ (by simp; omega)

/-- A line spells at most one date. -/
theorem Date.SpelledAs.eq {date other : Date} {line : Text}
    (hdate : date.SpelledAs line) (hother : other.SpelledAs line) :
    date = other := by
  rcases hdate with ⟨padMonth, padDay, hline⟩
  rcases hother with ⟨padMonth', padDay', hline'⟩
  have hmonth := date.month_mem.2
  have hmonth' := other.month_mem.2
  have hday := date.day_mem.2
  have hday' := other.day_mem.2
  rw [hline, Date.text, Date.text] at hline'
  have hsplit := List.append_inj hline' rfl
  have hyears := congrArg stoi hsplit.1
  rw [stoi_fourDigits date.year_lt, stoi_fourDigits other.year_lt] at hyears
  have hrest := List.tail_eq_of_cons_eq hsplit.2
  have hfront : ∀ (padded : Bool) (n : ℕ) (more : Text), n < 100 →
      (twoDigits padded n ++ '/' :: more).takeWhile (· != '/') =
        twoDigits padded n := by
    intro padded n more hn
    have hall : ∀ c ∈ twoDigits padded n, (c != '/') = true := by
      intro c hc
      rw [bne_iff_ne]
      rintro rfl
      exact slash_not_mem_twoDigits hn padded hc
    rw [List.takeWhile_append_of_pos hall]
    simp
  have hmonths := congrArg (List.takeWhile (· != '/')) hrest
  rw [hfront _ _ _ (by omega), hfront _ _ _ (by omega)] at hmonths
  rw [hmonths, List.append_cancel_left_eq, List.cons.injEq] at hrest
  have hmonths' := congrArg stoi hmonths
  rw [stoi_twoDigits (by omega), stoi_twoDigits (by omega)] at hmonths'
  have hdays := congrArg stoi hrest.2
  rw [stoi_twoDigits (by omega), stoi_twoDigits (by omega)] at hdays
  simp only [Option.some.injEq, Nat.cast_inj] at hyears hmonths' hdays
  rcases date with ⟨year, month, day, _, _, _⟩
  rcases other with ⟨year', month', day', _, _, _⟩
  simp only at hyears hmonths' hdays
  subst hyears hmonths' hdays
  rfl

/-- The answer is the date that the line spells, if it spells one. -/
def Answers (line : Text) : Answer → Prop
  | .valid year month day =>
      ∃ date : Date, date.SpelledAs line ∧
        year = date.year ∧ month = date.month ∧ day = date.day
  | .invalid => ∀ date : Date, ¬date.SpelledAs line

theorem exists_answer (line : Text) :
    ∃ given, answer line = some given ∧ Answers line given := by
  rw [answer]
  rcases hfound : regexMatch r line with _ | m
  · refine ⟨.invalid, rfl, ?_⟩
    rintro date ⟨padMonth, padDay, hline⟩
    exact regexMatch_eq_none_iff.mp hfound _
      (matches_r_iff.mpr ⟨date, padMonth, padDay, hline, rfl⟩)
  · rcases matches_r_iff.mp (matches_of_regexMatch hfound) with
      ⟨date, padMonth, padDay, hline, hm⟩
    have hmonth := date.month_mem.2
    have hday := date.day_mem.2
    subst hm
    refine ⟨.valid date.year date.month date.day, ?_, date,
      ⟨padMonth, padDay, hline⟩, rfl, rfl, rfl⟩
    have hyear := stoi_fourDigits date.year_lt
    have hmonths := stoi_twoDigits (n := date.month) (by omega) padMonth
    have hdays := stoi_twoDigits (n := date.day) (by omega) padDay
    simp [subMatch, hyear, hmonths, hdays]

/-! ## The whole input -/

/-- A last line without a newline is read if there is something in it. -/
def finished : List Text → List Text
  | [] => []
  | [last] => if last = [] then [] else [last]
  | line :: next :: rest => line :: finished (next :: rest)

/-- The lines up to the one that ends the loop. -/
def linesRead (input : Text) : List Text :=
  (finished (input.splitOn '\n')).takeWhile fun line => decide (line ≠ ['q'])

theorem dateLoop_of_not_good {s : Stream} (hgood : s.good = false) :
    dateLoop s = some [] := by
  have hfail : (getline s []).1.fail = true := by
    rw [getline, hgood]
    rfl
  rw [dateLoop, dif_pos (Or.inl hfail)]

theorem getline_last {input : Text}
    (hgood : (getline (Stream.start input) []).1.good = false) :
    getline (Stream.start input) [] = (⟨[], true, input.isEmpty⟩, input) := by
  have hstart : (Stream.start input).good = true := rfl
  have hrest : (Stream.start input).rest = input := rfl
  rw [getline, if_pos hstart, hrest] at hgood ⊢
  cases hdrop : input.dropWhile (· != '\n') with
  | nil => rfl
  | cons c rest =>
      rw [hdrop] at hgood
      cases hgood

theorem dateLoop_start (input : Text) :
    dateLoop (Stream.start input) = (linesRead input).mapM answer := by
  rw [linesRead]
  generalize hpieces : input.splitOn '\n' = pieces
  induction pieces generalizing input with
  | nil => exact absurd hpieces (List.splitOn_ne_nil _ _)
  | cons line others ih =>
      rcases getline_start input [] with
        ⟨first, rest, hsplit, hline, hlast, hmore⟩
      rw [hpieces, List.cons.injEq] at hsplit
      rcases hsplit with ⟨rfl, rfl⟩
      cases others with
      | nil =>
          have hgetline := getline_last (hlast rfl)
          have hinput : input = line := by
            rw [hgetline] at hline
            exact hline
          subst hinput
          have hstop : dateLoop (getline (Stream.start input) []).1 = some [] :=
            dateLoop_of_not_good (hlast rfl)
          rw [dateLoop, finished]
          by_cases hempty : input = []
          · rw [dif_pos (Or.inl (by rw [hgetline, hempty]; rfl)), if_pos hempty]
            rfl
          · rw [if_neg hempty]
            by_cases hquit : input = ['q']
            · rw [dif_pos (Or.inr (hline.trans hquit)), hquit]
              rfl
            · have hread : ¬((getline (Stream.start input) []).1.fail = true ∨
                  (getline (Stream.start input) []).2 = ['q']) := by
                rw [hgetline]
                simp [hempty, hquit]
              rw [dif_neg hread, hline, hstop, List.takeWhile_cons_of_pos
                (by simpa using hquit), List.takeWhile_nil, List.mapM_cons]
              rfl
      | cons next others =>
          rcases hmore (List.cons_ne_nil _ _) with ⟨more, hothers, hstream⟩
          rw [dateLoop, finished]
          by_cases hquit : line = ['q']
          · rw [dif_pos (Or.inr (hline.trans hquit)), hquit]
            rfl
          · have hread : ¬((getline (Stream.start input) []).1.fail = true ∨
                (getline (Stream.start input) []).2 = ['q']) := by
              rw [hline, hstream, not_or]
              exact ⟨Bool.false_ne_true, hquit⟩
            rw [dif_neg hread, hline, hstream, ih more hothers,
              List.takeWhile_cons_of_pos (by simpa using hquit),
              List.mapM_cons]

/-- For every input the loop ends without an exception, and gives its lines up
to `q` one answer each, in order. -/
theorem dateLoop_answers (input : Text) :
    ∃ answers, dateLoop (Stream.start input) = some answers ∧
      List.Forall₂ Answers (linesRead input) answers := by
  rw [dateLoop_start]
  generalize linesRead input = lines
  induction lines with
  | nil => exact ⟨[], rfl, .nil⟩
  | cons line lines ih =>
      rcases ih with ⟨answers, hanswers, hall⟩
      rcases exists_answer line with ⟨given, hgiven, hone⟩
      refine ⟨given :: answers, ?_, .cons hone hall⟩
      rw [List.mapM_cons, hgiven, hanswers]
      rfl

theorem answer_text (date : Date) (padMonth padDay : Bool) :
    answer (date.text padMonth padDay) =
      some (.valid date.year date.month date.day) := by
  have hspelled : date.SpelledAs (date.text padMonth padDay) :=
    ⟨padMonth, padDay, rfl⟩
  rcases exists_answer (date.text padMonth padDay) with ⟨given, hgiven, hright⟩
  rw [hgiven]
  cases given with
  | valid year month day =>
      rcases hright with ⟨other, hother, rfl, rfl, rfl⟩
      rw [hother.eq hspelled]
  | invalid => exact absurd hspelled (hright date)

theorem newline_not_mem_text (date : Date) (padMonth padDay : Bool) :
    '\n' ∉ date.text padMonth padDay := by
  have hdigits : ∀ ks : List ℕ, (∀ k ∈ ks, k < 10) → '\n' ∉ digits ks := by
    intro ks hks hmem
    cases isDigit_of_mem_digits hks _ hmem
  have hyear := date.year_lt
  have hmonth := date.month_mem.2
  have hday := date.day_mem.2
  have htwo : ∀ (padded : Bool) (n : ℕ), n < 100 → '\n' ∉ twoDigits padded n := by
    intro padded n hn
    rw [twoDigits]
    split_ifs with hshort
    · exact hdigits _ (by simp; omega)
    · exact hdigits _ (by simp; omega)
  have hfour : '\n' ∉ fourDigits date.year := hdigits _ (by simp; omega)
  rw [Date.text, List.mem_append, List.mem_cons, List.mem_append, List.mem_cons]
  have hslash : ('\n' : Char) ≠ '/' := by decide
  simp [hfour, hslash, htwo padMonth date.month (by omega),
    htwo padDay date.day (by omega)]

/-- Lines that are typed in, each with its newline, are the lines read. -/
theorem linesRead_flatMap {lines : List Text}
    (hlines : ∀ line ∈ lines, '\n' ∉ line ∧ line ≠ ['q']) :
    linesRead (lines.flatMap fun line => line ++ ['\n']) = lines := by
  have hpieces : (lines.flatMap fun line => line ++ ['\n']).splitOn '\n' =
      lines ++ [[]] := by
    induction lines with
    | nil => rfl
    | cons line lines ih =>
        rw [List.forall_mem_cons] at hlines
        rw [List.flatMap_cons, List.append_assoc, List.singleton_append,
          List.splitOn_append_cons_self_of_not_mem hlines.1.1, ih hlines.2]
        rfl
  have hfinished : finished (lines ++ [[]]) = lines := by
    clear hpieces hlines
    induction lines with
    | nil => rfl
    | cons line lines ih =>
        cases lines with
        | nil => rfl
        | cons next lines =>
            change line :: finished (next :: lines ++ [[]]) = _
            rw [ih]
  rw [linesRead, hpieces, hfinished, List.takeWhile_eq_self_iff]
  intro line hline
  exact decide_eq_true (hlines line hline).2

/-- Whatever dates are typed in, in whatever spelling, are printed again. -/
theorem dateLoop_spelled (dates : List (Date × Bool × Bool)) :
    dateLoop (Stream.start ((dates.map fun date =>
        date.1.text date.2.1 date.2.2).flatMap fun line => line ++ ['\n'])) =
      some (dates.map fun date =>
        .valid date.1.year date.1.month date.1.day) := by
  rw [dateLoop_start, linesRead_flatMap]
  · induction dates with
    | nil => rfl
    | cons date dates ih =>
        rw [List.map_cons, List.mapM_cons, answer_text, ih]
        rfl
  · intro line hline
    rcases List.mem_map.mp hline with ⟨date, _, rfl⟩
    refine ⟨newline_not_mem_text _ _ _, ?_⟩
    intro hquit
    have hlength := congrArg List.length hquit
    rw [Date.text, List.length_append, List.length_cons] at hlength
    have hfour : (fourDigits date.1.year).length = 4 := rfl
    rw [hfour, List.length_singleton] at hlength
    omega

end Miscellaneous.DateInput
