import Miscellaneous.InfoFile
import Mathlib.Tactic

/-!
# What the reader of the information file accepts

`readFromFile` looks at three labels and at nothing else.  A content whose
first, fourth and fifth line have them is accepted, and what is stored is
what extraction makes of the lines, whether it succeeds or not: a line
without a number leaves zero, and a vector is the run of values behind a
count that nobody compares with its length.
-/

namespace Miscellaneous.InfoFile

open TextStreams DecimalText

variable {F α : Type*}

/-- What `>>` leaves in a variable when it is applied to a line. -/
def numberOf (reader : Reader α) (line : Text) (initial : α) : α :=
  match line.dropWhile isSpace with
  | [] => initial
  | c :: word => (reader.read (c :: word)).value

/-- The values behind the count, none if there is no count. -/
def vectorOf (reader : Reader α) (text : Text) : List α :=
  match text.dropWhile isSpace with
  | [] => []
  | c :: word =>
      if (intReader.read (c :: word)).ok then
        leading reader (intReader.read (c :: word)).rest
      else []

theorem extract_getD (reader : Reader α) (line : Text) (initial : α) :
    (extract reader (Stream.start line)).2.getD initial =
      numberOf reader line initial := by
  cases hskip : line.dropWhile isSpace with
  | nil => simp [extract, Stream.start, Stream.good, numberOf, hskip]
  | cons c word => simp [extract_start reader hskip, numberOf, hskip]

theorem extractAll_behind_count (reader : Reader α) (text : Text) :
    (extractAll reader (extract intReader (Stream.start text)).1).1 =
      vectorOf reader text := by
  cases hskip : text.dropWhile isSpace with
  | nil =>
      have hbad : (extract intReader (Stream.start text)).1.good = false := by
        simp [extract, Stream.start, Stream.good, hskip]
      simp [extractAll_of_not_good reader hbad, vectorOf, hskip]
  | cons c word =>
      rw [extract_start intReader hskip]
      cases hok : (intReader.read (c :: word)).ok with
      | false =>
          rw [extractAll_of_not_good reader (by simp [Stream.good])]
          simp [vectorOf, hskip, hok]
      | true =>
          have hrest := extractAll_behind reader
            (extractAll_start reader (intReader.read (c :: word)).rest)
          simpa [vectorOf, hskip, hok] using hrest

theorem readVector_labelled (reader : Reader α) (word : Text)
    (hne : word ≠ []) (hsolid : ∀ c ∈ word, isSpace c = false)
    (text : Text) :
    readVector reader (word ++ ' ' :: text) = (word, vectorOf reader text) := by
  have hextract := (reads_word hne hsolid).extract
    (show ∀ c ∈ (' ' :: text).head?, isSpace c = true by simp [isSpace])
  have hblank : vectorOf reader (' ' :: text) = vectorOf reader text := by
    simp [vectorOf, isSpace]
  have hvector := extractAll_behind_count reader (' ' :: text)
  rw [hblank] at hvector
  unfold readVector
  rw [hextract]
  exact Prod.ext rfl hvector

/-- The five lines of a content that has its labels, without the labels. -/
structure Layout (content : Text) where
  title : Text
  people : Text
  score : Text
  colors : Text
  numbers : Text
  rest : List Text
  splitOn : content.splitOn '\n' =
    (infoLabel ++ title) :: people :: score :: (colorsLabel ++ colors) ::
      (numbersLabel ++ numbers) :: rest

theorem layout_of_accepted {content : Text}
    (hinfo : infoLabel.isPrefixOf (lineAt content 0) = true)
    (hcolors : colorsLabel.isPrefixOf (lineAt content 3) = true)
    (hnumbers : numbersLabel.isPrefixOf (lineAt content 4) = true) :
    Nonempty (Layout content) := by
  rw [List.isPrefixOf_iff_prefix] at hinfo hcolors hnumbers
  have hclash : ∀ line, infoLabel <+: line → ¬colorsLabel <+: line := by
    rintro _ ⟨text, rfl⟩ ⟨other, hother⟩
    simp [infoLabel, colorsLabel] at hother
  have hclash' : ∀ line, colorsLabel <+: line → ¬numbersLabel <+: line := by
    rintro _ ⟨text, rfl⟩ ⟨other, hother⟩
    simp [colorsLabel, numbersLabel] at hother
  -- with fewer than five pieces one line would carry two labels
  rcases hpieces : content.splitOn '\n' with
    _ | ⟨title, _ | ⟨people, _ | ⟨score, _ | ⟨colors, _ | ⟨numbers, rest⟩⟩⟩⟩⟩
  · exact absurd hpieces (List.splitOn_ne_nil _ _)
  all_goals
    rw [lineAt_of_splitOn hpieces (by simp)] at hinfo hcolors hnumbers
  · exact absurd hcolors (hclash _ hinfo)
  · exact absurd hnumbers (hclash' _ hcolors)
  · exact absurd hnumbers (hclash' _ hcolors)
  · exact absurd hnumbers (hclash' _ hcolors)
  · rcases hinfo with ⟨title, rfl⟩
    rcases hcolors with ⟨colors, rfl⟩
    rcases hnumbers with ⟨numbers, rfl⟩
    exact ⟨⟨title, people, score, colors, numbers, rest, hpieces⟩⟩

def Layout.stored {content : Text} (layout : Layout content)
    (floats : FloatText F) : MyInfo F where
  people := numberOf intReader layout.people 0
  score := numberOf floats.reader layout.score floats.zero
  colors := vectorOf floats.reader layout.colors
  numbers := vectorOf intReader layout.numbers

theorem readFromFile_of_layout (floats : FloatText F) {content : Text}
    (layout : Layout content) (info : Option (MyInfo F)) :
    (readFromFile floats (some content) info).returned = true ∧
      (readFromFile floats (some content) info).info =
        some (layout.stored floats) := by
  have hline (count : ℕ) := lineAt_of_splitOn layout.splitOn (by simp) count
  have h0 : lineAt content 0 = infoLabel ++ layout.title := hline 0
  have h1 : lineAt content 1 = layout.people := hline 1
  have h2 : lineAt content 2 = layout.score := hline 2
  have h3 : lineAt content 3 = colorsLabel ++ layout.colors := hline 3
  have h4 : lineAt content 4 = numbersLabel ++ layout.numbers := hline 4
  have hcolors : readVector floats.reader (colorsLabel ++ layout.colors) =
      (['c', 'o', 'l', 'o', 'r', 's', ':'],
        vectorOf floats.reader layout.colors) :=
    readVector_labelled floats.reader ['c', 'o', 'l', 'o', 'r', 's', ':']
      (by simp) (by simp [isSpace]) layout.colors
  have hnumbers : readVector intReader (numbersLabel ++ layout.numbers) =
      (['n', 'u', 'm', 'b', 'e', 'r', 's', ':'],
        vectorOf intReader layout.numbers) :=
    readVector_labelled intReader ['n', 'u', 'm', 'b', 'e', 'r', 's', ':']
      (by simp) (by simp [isSpace]) layout.numbers
  have hread := readFromFile_of_accepted floats info
    (show infoLabel.isPrefixOf (lineAt content 0) = true by simp [h0])
    (show colorsLabel.isPrefixOf (lineAt content 3) = true by simp [h3])
    (show numbersLabel.isPrefixOf (lineAt content 4) = true by simp [h4])
  rw [h1, h2, h3, h4, hcolors, hnumbers, extract_getD, extract_getD] at hread
  rw [hread]
  exact ⟨rfl, rfl⟩

/-- Every content: it has the three labels and what is read from its lines is
stored, or the call returns false and leaves `info` alone. -/
theorem readFromFile_spec (floats : FloatText F) (content : Text)
    (info : Option (MyInfo F)) :
    (∃ layout : Layout content,
      (readFromFile floats (some content) info).returned = true ∧
      (readFromFile floats (some content) info).info =
        some (layout.stored floats)) ∨
    (IsEmpty (Layout content) ∧
      (readFromFile floats (some content) info).returned = false ∧
      (readFromFile floats (some content) info).info = info) := by
  by_cases hlayout : Nonempty (Layout content)
  · rcases hlayout with ⟨layout⟩
    exact .inl ⟨layout, readFromFile_of_layout floats layout info⟩
  · have hrejected := readFromFile_of_rejected floats info
      fun ⟨hinfo, hcolors, hnumbers⟩ =>
        hlayout (layout_of_accepted hinfo hcolors hnumbers)
    exact .inr ⟨not_nonempty_iff.mp hlayout, hrejected⟩

/-! ## What it does not check -/

def IsNumber (reader : Reader α) (line : Text) (value : α) : Prop :=
  ∃ rest, reader.read (line.dropWhile isSpace) = ⟨value, true, rest⟩ ∧
    ∀ c ∈ rest, isSpace c = true

/-- The text is a count and that many values, with every token read. -/
def IsVector (reader : Reader α) (text : Text) (values : List α) : Prop :=
  ∃ count rest,
    intReader.read (text.dropWhile isSpace) = ⟨count, true, rest⟩ ∧
    count.toInt = values.length ∧
    List.Forall₂ (Reads reader) ((rest.splitOnP isSpace).filter (· ≠ []))
      values

structure Layout.Complete {content : Text} (layout : Layout content)
    (floats : FloatText F) (data : MyInfo F) : Prop where
  people : IsNumber intReader layout.people data.people
  score : IsNumber floats.reader layout.score data.score
  colors : IsVector floats.reader layout.colors data.colors
  numbers : IsVector intReader layout.numbers data.numbers

/-- Floats without a fractional part, small enough for six digits. -/
def wholeNumbers : FloatText ℤ where
  zero := 0
  print := printInteger
  reader := integerReader id (fun _ => true) 0

/-- A content in the written format, but for letters as the people. -/
def lettersForPeople : Text :=
  infoLabel ++ '\n' :: (['a', 'b', 'c'] ++ '\n' :: (['1'] ++ '\n' ::
    ((colorsLabel ++ ['0', ' ']) ++ '\n' ::
      ((numbersLabel ++ ['0', ' ']) ++ ['\n']))))

def lettersForPeopleLayout : Layout lettersForPeople where
  title := []
  people := ['a', 'b', 'c']
  score := ['1']
  colors := ['0', ' ']
  numbers := ['0', ' ']
  rest := [[]]
  splitOn := by decide

theorem readFromFile_accepts_letters :
    ¬(((readFromFile wholeNumbers (some lettersForPeople) none).returned =
          false ∧
        (readFromFile wholeNumbers (some lettersForPeople) none).info = none) ∨
      ((readFromFile wholeNumbers (some lettersForPeople) none).returned =
          true ∧
        ∃ (layout : Layout lettersForPeople) (data : MyInfo ℤ),
          (readFromFile wholeNumbers (some lettersForPeople) none).info =
              some data ∧
            layout.Complete wholeNumbers data)) := by
  have haccepted := (readFromFile_of_layout wholeNumbers
    lettersForPeopleLayout none).1
  rintro (⟨hfalse, _⟩ | ⟨_, layout, data, _, hcomplete⟩)
  · rw [haccepted] at hfalse
    contradiction
  · have hpieces := layout.splitOn.symm.trans lettersForPeopleLayout.splitOn
    have hpeople : layout.people = ['a', 'b', 'c'] :=
      (List.cons.inj (List.cons.inj hpieces).2).1
    rcases hcomplete.people with ⟨rest, hread, _⟩
    rw [hpeople] at hread
    have hok : (intReader.read ['a', 'b', 'c']).ok = false := by decide
    simp [isSpace] at hread
    rw [hread] at hok
    contradiction

end Miscellaneous.InfoFile
