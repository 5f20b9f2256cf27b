import Miscellaneous.DecimalText
import Mathlib.Data.List.DropRight
import Mathlib.Tactic

/-!
# Scanning with a format

`fscanf` for formats of white space, ordinary characters and conversions of
decimal integers.  White space of a format skips any amount of it, an ordinary
character asks for itself, and a conversion skips white space and takes the
longest numeral.  The scan ends with the format, at a character that does not
fit, or with the input.

A scan comes to the end of its format exactly on the texts that are spelled as
the format says, and gives the values that are spelled.
-/

namespace ScanFormats

open TextStreams DecimalText

inductive Directive (α : Type*) where
  | blank
  | char (c : Char)
  | number (convert : ℤ → α)

inductive Ending where
  | done
  | mismatch
  | inputEnd
  deriving DecidableEq, Repr

structure Scan (α : Type*) where
  items : List α
  ending : Ending
  rest : Text

variable {α β : Type*}

def Scan.cons (item : α) (more : Scan α) : Scan α :=
  { more with items := item :: more.items }

def scan : List (Directive α) → Text → Scan α
  | [], text => ⟨[], .done, text⟩
  | .blank :: format, text => scan format (text.dropWhile isSpace)
  | .char _ :: _, [] => ⟨[], .inputEnd, []⟩
  | .char c :: format, d :: text =>
      if d = c then scan format text else ⟨[], .mismatch, d :: text⟩
  | .number convert :: format, text =>
      if text.dropWhile isSpace = [] then ⟨[], .inputEnd, []⟩
      else
        match scanInteger (text.dropWhile isSpace) with
        | (none, rest) => ⟨[], .mismatch, rest⟩
        | (some z, rest) => (scan format rest).cons (convert z)

def Directive.map (f : α → β) : Directive α → Directive β
  | .blank => .blank
  | .char c => .char c
  | .number convert => .number fun z => f (convert z)

def Scan.map (f : α → β) (result : Scan α) : Scan β :=
  ⟨result.items.map f, result.ending, result.rest⟩

@[simp] theorem Scan.map_cons (f : α → β) (item : α) (more : Scan α) :
    (more.cons item).map f = (more.map f).cons (f item) := rfl

/-- Two formats that scan alike do so behind other directives, too. -/
theorem scan_append_congr {first second : List (Directive α)}
    (hsame : ∀ text, scan first text = scan second text)
    (format : List (Directive α)) (text : Text) :
    scan (format ++ first) text = scan (format ++ second) text := by
  induction format generalizing text with
  | nil => exact hsame text
  | cons directive format ih =>
      cases directive with
      | blank => exact ih _
      | char c =>
          cases text with
          | nil => rfl
          | cons d text => simp only [List.cons_append, scan, ih]
      | number convert => simp only [List.cons_append, scan, ih]

/-- A conversion skips white space anyway. -/
theorem scan_blank_number (convert : ℤ → α) (format : List (Directive α))
    (text : Text) :
    scan (.blank :: .number convert :: format) text =
      scan (.number convert :: format) text := by
  simp only [scan, List.dropWhile_idempotent]

/-- What a conversion stores does not change how the format is scanned. -/
theorem scan_map (f : α → β) (format : List (Directive α)) (text : Text) :
    scan (format.map (Directive.map f)) text = (scan format text).map f := by
  induction format generalizing text with
  | nil => rfl
  | cons directive format ih =>
      cases directive with
      | blank => exact ih _
      | char c =>
          cases text with
          | nil => rfl
          | cons d text =>
              simp only [List.map_cons, Directive.map, scan]
              split_ifs
              · exact ih _
              · rfl
      | number convert =>
          simp only [List.map_cons, Directive.map, scan]
          split_ifs
          · rfl
          · rcases scanInteger (text.dropWhile isSpace) with ⟨_ | z, rest⟩
            · rfl
            · dsimp only
              rw [ih, Scan.map_cons]

/-! ## Formats that end with their last conversion -/

def conversions : List (Directive α) → ℕ
  | [] => 0
  | .blank :: format => conversions format
  | .char _ :: format => conversions format
  | .number _ :: format => conversions format + 1

/-- No ordinary character behind the last conversion. -/
def EndsWithConversion : List (Directive α) → Prop
  | [] => True
  | .blank :: format => EndsWithConversion format
  | .char _ :: format => 0 < conversions format ∧ EndsWithConversion format
  | .number _ :: format => EndsWithConversion format

/-- In such a format nothing can fail any more when all values are there. -/
theorem done_of_length_items {format : List (Directive α)} {text : Text}
    (hformat : EndsWithConversion format)
    (hlength : (scan format text).items.length = conversions format) :
    (scan format text).ending = .done := by
  induction format generalizing text with
  | nil => rfl
  | cons directive format ih =>
      cases directive with
      | blank => exact ih hformat hlength
      | char c =>
          rcases hformat with ⟨hpos, hformat⟩
          cases text with
          | nil =>
              simp only [scan, conversions, List.length_nil] at hlength
              omega
          | cons d text =>
              simp only [scan, conversions] at hlength ⊢
              split_ifs at hlength ⊢
              · exact ih hformat hlength
              · rw [List.length_nil] at hlength
                omega
      | number convert =>
          simp only [scan, conversions] at hlength ⊢
          by_cases hnil : text.dropWhile isSpace = []
          · rw [if_pos hnil, List.length_nil] at hlength
            omega
          · rw [if_neg hnil] at hlength ⊢
            rcases hscan : scanInteger (text.dropWhile isSpace) with
              ⟨_ | z, rest⟩
            · rw [hscan, List.length_nil] at hlength
              omega
            · rw [hscan] at hlength
              exact ih hformat (Nat.succ.inj hlength)

/-! ## Numerals -/

inductive Sign where
  | none
  | plus
  | minus
  deriving DecidableEq, Repr

def Sign.text : Sign → Text
  | .none => []
  | .plus => ['+']
  | .minus => ['-']

def Sign.apply : Sign → ℕ → ℤ
  | .none, n => n
  | .plus, n => n
  | .minus, n => -n

/-- A decimal integer as it may be spelled: with a sign or none, and with any
number of leading zeros. -/
structure Numeral where
  sign : Sign
  digits : Text
  digits_ne : digits ≠ []
  isDigit : ∀ c ∈ digits, c.isDigit = true

def Numeral.text (numeral : Numeral) : Text :=
  numeral.sign.text ++ numeral.digits

def Numeral.value (numeral : Numeral) : ℤ :=
  numeral.sign.apply (Nat.ofDigitChars 10 numeral.digits 0)

/-- Nothing behind a token continues a numeral. -/
def Stops (rest : Text) : Prop := ∀ c ∈ rest.head?, c.isDigit = false

theorem scanDigits_digits (numeral : Numeral) {rest : Text}
    (hrest : Stops rest) :
    scanDigits (numeral.digits ++ rest) =
      (some (Nat.ofDigitChars 10 numeral.digits 0), rest) := by
  rcases maximal_run numeral.isDigit hrest with ⟨htake, hdrop⟩
  simp only [scanDigits, htake, hdrop, if_neg numeral.digits_ne]

theorem scanDigits_eq_some {text rest : Text} {n : ℕ}
    (hscan : scanDigits text = (some n, rest)) :
    ∃ digits, digits ≠ [] ∧ (∀ c ∈ digits, c.isDigit = true) ∧
      n = Nat.ofDigitChars 10 digits 0 ∧ text = digits ++ rest ∧ Stops rest := by
  simp only [scanDigits, Prod.mk.injEq] at hscan
  rcases hscan with ⟨hvalue, rfl⟩
  split_ifs at hvalue with hnil
  rw [Option.some.injEq] at hvalue
  refine ⟨text.takeWhile Char.isDigit, hnil, ?_, hvalue.symm,
    List.takeWhile_append_dropWhile.symm, ?_⟩
  · intro c hc
    exact List.mem_takeWhile_imp hc
  · intro c hc
    have hhead := List.head?_dropWhile_not Char.isDigit text
    rw [hc] at hhead
    simpa using hhead

theorem scanInteger_numeral (numeral : Numeral) {rest : Text}
    (hrest : Stops rest) :
    scanInteger (numeral.text ++ rest) = (some numeral.value, rest) := by
  have hdigits := scanDigits_digits numeral hrest
  rcases numeral with ⟨sign, digits, hne, hall⟩
  cases sign with
  | plus =>
      simp only [Numeral.text, Numeral.value, Sign.text, Sign.apply,
        List.cons_append, List.nil_append, scanInteger]
      simp only [hdigits, Option.map_some]
  | minus =>
      simp only [Numeral.text, Numeral.value, Sign.text, Sign.apply,
        List.cons_append, List.nil_append, scanInteger]
      simp only [hdigits, Option.map_some]
  | none =>
      obtain ⟨c, digits, rfl⟩ := List.exists_cons_of_ne_nil hne
      have hc : c.isDigit = true := hall c (by simp)
      have hminus : c ≠ '-' := by
        rintro rfl
        contradiction
      have hplus : c ≠ '+' := by
        rintro rfl
        contradiction
      simp only [Numeral.text, Numeral.value, Sign.text, Sign.apply,
        List.cons_append, List.nil_append] at hdigits ⊢
      unfold scanInteger
      split
      · simp_all
      · simp_all
      · rw [hdigits]
        rfl

/-- The numeral that a conversion has taken. -/
theorem exists_numeral {text rest : Text} {z : ℤ}
    (hscan : scanInteger text = (some z, rest)) :
    ∃ numeral : Numeral, numeral.value = z ∧ text = numeral.text ++ rest ∧
      Stops rest := by
  have hdigits : ∀ {body : Text} {n : ℕ} (sign : Sign),
      scanDigits body = (some n, rest) → text = sign.text ++ body →
      z = sign.apply n →
      ∃ numeral : Numeral, numeral.value = z ∧ text = numeral.text ++ rest ∧
        Stops rest := by
    rintro body n sign hbody rfl rfl
    rcases scanDigits_eq_some hbody with ⟨digits, hne, hall, rfl, rfl, hstops⟩
    exact ⟨⟨sign, digits, hne, hall⟩, rfl, (List.append_assoc _ _ _).symm,
      hstops⟩
  unfold scanInteger at hscan
  split at hscan
  · rename_i body
    rw [Prod.mk.injEq, Option.map_eq_some_iff] at hscan
    rcases hscan with ⟨⟨n, hn, hz⟩, hrest⟩
    exact hdigits .minus (Prod.ext hn hrest) rfl hz.symm
  · rename_i body
    rw [Prod.mk.injEq, Option.map_eq_some_iff] at hscan
    rcases hscan with ⟨⟨n, hn, hz⟩, hrest⟩
    exact hdigits .plus (Prod.ext hn hrest) rfl hz.symm
  · rw [Prod.mk.injEq, Option.map_eq_some_iff] at hscan
    rcases hscan with ⟨⟨n, hn, hz⟩, hrest⟩
    exact hdigits .none (Prod.ext hn hrest) rfl hz.symm

theorem Numeral.head?_text (numeral : Numeral) (rest : Text) :
    ∃ c text, numeral.text ++ rest = c :: text ∧ isSpace c = false := by
  rcases numeral with ⟨sign, digits, hne, hall⟩
  obtain ⟨d, digits, rfl⟩ := List.exists_cons_of_ne_nil hne
  cases sign with
  | none => exact ⟨d, _, rfl, isSpace_of_isDigit (hall d (by simp))⟩
  | plus => exact ⟨'+', _, rfl, rfl⟩
  | minus => exact ⟨'-', _, rfl, rfl⟩

/-! ## Texts that are spelled as a format says -/

/-- A text without white space at its beginning. -/
def Solid (text : Text) : Prop := ∀ c ∈ text.head?, isSpace c = false

inductive Spelled : List (Directive α) → Text → List α → Text → Prop where
  | done (rest : Text) : Spelled [] rest [] rest
  | blank {format : List (Directive α)} {blanks text rest : Text}
      {items : List α} (hblanks : ∀ c ∈ blanks, isSpace c = true)
      (hsolid : Solid text) (hmore : Spelled format text items rest) :
      Spelled (.blank :: format) (blanks ++ text) items rest
  | char {format : List (Directive α)} {c : Char} {text rest : Text}
      {items : List α} (hmore : Spelled format text items rest) :
      Spelled (.char c :: format) (c :: text) items rest
  | number {format : List (Directive α)} {convert : ℤ → α}
      {blanks text rest : Text} {items : List α} (numeral : Numeral)
      (hblanks : ∀ c ∈ blanks, isSpace c = true) (hstops : Stops text)
      (hmore : Spelled format text items rest) :
      Spelled (.number convert :: format) (blanks ++ (numeral.text ++ text))
        (convert numeral.value :: items) rest

theorem dropWhile_blanks {blanks text : Text}
    (hblanks : ∀ c ∈ blanks, isSpace c = true) (hsolid : Solid text) :
    (blanks ++ text).dropWhile isSpace = text :=
  (maximal_run hblanks hsolid).2

theorem solid_dropWhile (text : Text) : Solid (text.dropWhile isSpace) := by
  intro c hc
  have hhead := List.head?_dropWhile_not isSpace text
  rw [hc] at hhead
  simpa using hhead

theorem scan_of_spelled {format : List (Directive α)} {text rest : Text}
    {items : List α} (hspelled : Spelled format text items rest) :
    scan format text = ⟨items, .done, rest⟩ := by
  induction hspelled with
  | done rest => rfl
  | blank hblanks hsolid _ ih =>
      rw [scan, dropWhile_blanks hblanks hsolid, ih]
  | char _ ih => rw [scan, if_pos rfl, ih]
  | @number _ _ _ text _ _ numeral hblanks hstops _ ih =>
      rcases numeral.head?_text text with ⟨c, body, htext, hc⟩
      have hsolid : Solid (numeral.text ++ text) := by
        intro d hd
        rw [htext, List.head?_cons, Option.mem_some_iff] at hd
        exact hd ▸ hc
      have hne : numeral.text ++ text ≠ [] := by simp [htext]
      rw [scan, dropWhile_blanks hblanks hsolid, if_neg hne,
        scanInteger_numeral numeral hstops]
      dsimp only
      rw [ih]
      rfl

theorem spelled_of_scan {format : List (Directive α)} {text rest : Text}
    {items : List α} (hscan : scan format text = ⟨items, .done, rest⟩) :
    Spelled format text items rest := by
  induction format generalizing text items with
  | nil =>
      cases hscan
      exact .done _
  | cons directive format ih =>
      have hblanks : ∀ c ∈ text.takeWhile isSpace, isSpace c = true :=
        fun c hc => List.mem_takeWhile_imp hc
      have hsplit : text.takeWhile isSpace ++ text.dropWhile isSpace = text :=
        List.takeWhile_append_dropWhile
      cases directive with
      | blank =>
          have hmore := Spelled.blank hblanks (solid_dropWhile text) (ih hscan)
          rwa [hsplit] at hmore
      | char c =>
          cases text with
          | nil => cases hscan
          | cons d text =>
              simp only [scan] at hscan
              split_ifs at hscan with hd
              · subst hd
                exact .char (ih hscan)
              · cases hscan
      | number convert =>
          simp only [scan] at hscan
          split_ifs at hscan with hnil
          · cases hscan
          · rcases hinteger : scanInteger (text.dropWhile isSpace) with
              ⟨_ | z, behind⟩
            · rw [hinteger] at hscan
              cases hscan
            · rw [hinteger] at hscan
              rcases hmore : scan format behind with ⟨more, ending, last⟩
              dsimp only at hscan
              rw [hmore] at hscan
              cases hscan
              rcases exists_numeral hinteger with
                ⟨numeral, rfl, htext, hstops⟩
              have hspelled : Spelled (.number convert :: format) _ _ _ :=
                .number numeral hblanks hstops (ih hmore)
              rwa [← htext, hsplit] at hspelled

theorem scan_eq_done_iff {format : List (Directive α)} {text rest : Text}
    {items : List α} :
    scan format text = ⟨items, .done, rest⟩ ↔
      Spelled format text items rest :=
  ⟨spelled_of_scan, scan_of_spelled⟩

end ScanFormats
