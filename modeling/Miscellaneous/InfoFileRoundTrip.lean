import Miscellaneous.InfoFileReading
import Mathlib.Tactic

/-!
# Writing an information file and reading it back

The text that `printToStringStream` produces has the layout that the reader
accepts, and every line consists of tokens with a blank behind each.  So the
reader gets the integers back, and for the floats values that print the same.
The writer opens the file before it looks at the pointer, so a null pointer
empties the file although the writer reports a failure.
-/

namespace Miscellaneous.InfoFile

open TextStreams DecimalText

variable {F α : Type*}

/-- The float is printed as a token which is read as a float that prints the
same. -/
def Stable (floats : FloatText F) (x : F) : Prop :=
  ∃ y, Reads floats.reader (floats.print x) y ∧
    floats.print y = floats.print x

theorem reads_printInt (n : Int32) : Reads intReader (printInt n) n := by
  have hfits : fitsInt n.toInt = true :=
    decide_eq_true ⟨n.minValue_le_toInt, n.toInt_le⟩
  have hreads := @reads_printInteger Int32 Int32.ofIntClamp fitsInt 0 _ hfits
  rwa [Int32.ofIntClamp_toInt] at hreads

theorem reads_count {count : ℕ} (hcount : count < 2 ^ 31) :
    Reads intReader (Nat.toDigits 10 count) (Int32.ofIntClamp count) := by
  have hfits : fitsInt count = true := by
    simp only [fitsInt, Int32.toInt_minValue, Int32.toInt_maxValue,
      decide_eq_true_eq]
    omega
  exact @reads_printInteger Int32 Int32.ofIntClamp fitsInt 0 _ hfits

theorem numberOf_token {reader : Reader α} {token : Text} {value : α}
    (hreads : Reads reader token value) (initial : α) :
    numberOf reader token initial = value := by
  have hextract := hreads.extract
    (show ∀ c ∈ ([] : Text).head?, isSpace c = true by simp)
  rw [List.append_nil] at hextract
  rw [← extract_getD, hextract]
  rfl

theorem vectorOf_printVector {reader : Reader α} {print : α → Text}
    {values stored : List α} {text : Text}
    (hprint : printVector print values = some text)
    (hreads : List.Forall₂ (Reads reader) (values.map print) stored) :
    vectorOf reader text = stored := by
  unfold printVector at hprint
  split_ifs at hprint with hlength
  obtain rfl := Option.some.inj hprint
  have htokens := leading_tokens hreads
  rw [List.flatMap_map] at htokens
  have hcount := (reads_count hlength).extract
    (show ∀ c ∈ (' ' :: values.flatMap fun value => print value ++ [' ']).head?,
      isSpace c = true by simp [isSpace])
  rw [← extractAll_behind_count, hcount,
    extractAll_behind reader (extractAll_start reader _), htokens]

theorem notMem_newline_of_solid {token : Text}
    (hsolid : ∀ c ∈ token, isSpace c = false) : '\n' ∉ token := by
  intro hmem
  have hspace := hsolid '\n' hmem
  contradiction

theorem notMem_newline_printVector {print : α → Text} {values : List α}
    {text : Text} (hprint : printVector print values = some text)
    (hsolid : ∀ value ∈ values, '\n' ∉ print value) : '\n' ∉ text := by
  unfold printVector at hprint
  split_ifs at hprint with hlength
  obtain rfl := Option.some.inj hprint
  have hcount : '\n' ∉ Nat.toDigits 10 values.length :=
    notMem_newline_of_solid (reads_count hlength).solid
  simp only [List.mem_append, List.mem_cons, List.mem_flatMap, not_or]
  refine ⟨hcount, by decide, ?_⟩
  rintro ⟨value, hvalue, hmem | hmem⟩
  · exact hsolid value hvalue hmem
  · simp at hmem

theorem exists_reads_of_stable {floats : FloatText F} {values : List F}
    (hstable : ∀ x ∈ values, Stable floats x) :
    ∃ stored, List.Forall₂ (Reads floats.reader) (values.map floats.print)
        stored ∧
      stored.map floats.print = values.map floats.print := by
  induction values with
  | nil => exact ⟨[], .nil, rfl⟩
  | cons x values ih =>
      rcases hstable x (by simp) with ⟨y, hreads, hprint⟩
      rcases ih (fun z hz => hstable z (by simp [hz])) with
        ⟨stored, hstored, hprints⟩
      exact ⟨y :: stored, .cons hreads hstored, by simp [hprint, hprints]⟩

theorem reads_printInts (values : List Int32) :
    List.Forall₂ (Reads intReader) (values.map printInt) values := by
  induction values with
  | nil => exact .nil
  | cons n values ih => exact .cons (reads_printInt n) ih

theorem printVector_congr {print : α → Text} {values stored : List α}
    (hprint : stored.map print = values.map print) :
    printVector print stored = printVector print values := by
  have hlength : stored.length = values.length := by
    simpa using congrArg List.length hprint
  have htokens (list : List α) :
      (list.flatMap fun value => print value ++ [' ']) =
        (list.map print).flatMap (· ++ [' ']) := by
    rw [List.flatMap_map]
  unfold printVector
  rw [htokens, htokens, hprint, hlength]

theorem printVector_eq_some (print : α → Text) {values : List α}
    (hlength : values.length < 2 ^ 31) :
    ∃ text, printVector print values = some text := by
  unfold printVector
  rw [if_pos hlength]
  exact ⟨_, rfl⟩

def writtenLayout {floats : FloatText F} {info : MyInfo F}
    {colors numbers : Text}
    (hpeople : '\n' ∉ printInt info.people)
    (hscore : '\n' ∉ floats.print info.score)
    (hcolors : '\n' ∉ colors) (hnumbers : '\n' ∉ numbers) :
    Layout (infoLabel ++ '\n' :: (printInt info.people ++ '\n' ::
      (floats.print info.score ++ '\n' ::
        (colorsLabel ++ colors ++ '\n' ::
          (numbersLabel ++ numbers ++ ['\n']))))) where
  title := []
  people := printInt info.people
  score := floats.print info.score
  colors := colors
  numbers := numbers
  rest := [[]]
  splitOn := by
    have hinfo : '\n' ∉ infoLabel := by decide
    have hcolors' : '\n' ∉ colorsLabel ++ colors := by
      simp [colorsLabel, hcolors]
    have hnumbers' : '\n' ∉ numbersLabel ++ numbers := by
      simp [numbersLabel, hnumbers]
    rw [List.splitOn_append_cons_self_of_not_mem hinfo,
      List.splitOn_append_cons_self_of_not_mem hpeople,
      List.splitOn_append_cons_self_of_not_mem hscore,
      List.splitOn_append_cons_self_of_not_mem hcolors',
      List.splitOn_append_cons_self_of_not_mem hnumbers',
      List.splitOn_nil, List.append_nil]

/-- Writing and reading back.  Whatever the file held before and whatever
`info2` pointed at, the integers come back, the floats come back up to their
printed text, and writing what was read gives the same file again. -/
theorem readFromFile_writeToFile (floats : FloatText F) (info : MyInfo F)
    (hcolors : info.colors.length < 2 ^ 31)
    (hnumbers : info.numbers.length < 2 ^ 31)
    (hscore : Stable floats info.score)
    (hstable : ∀ x ∈ info.colors, Stable floats x)
    (file : Option Text) (previous : Option (MyInfo F)) :
    ∃ text info2,
      writeToFile floats true file (some info) = some (true, some text) ∧
      (readFromFile floats (some text) previous).returned = true ∧
      (readFromFile floats (some text) previous).info = some info2 ∧
      info2.people = info.people ∧
      info2.numbers = info.numbers ∧
      info2.colors.length = info.colors.length ∧
      info2.colors.map floats.print = info.colors.map floats.print ∧
      ∀ file2, writeToFile floats true file2 (some info2) =
        some (true, some text) := by
  rcases printVector_eq_some floats.print hcolors with ⟨colorsText, hcolorsText⟩
  rcases printVector_eq_some printInt hnumbers with ⟨numbersText, hnumbersText⟩
  rcases hscore with ⟨score, hscoreReads, hscorePrint⟩
  rcases exists_reads_of_stable hstable with ⟨stored, hstored, hprints⟩
  have hpeopleReads : Reads intReader (printInt info.people) info.people :=
    reads_printInt info.people
  have hcolorsLine : '\n' ∉ colorsText := by
    apply notMem_newline_printVector hcolorsText
    intro x hx
    rcases hstable x hx with ⟨y, hreads, _⟩
    exact notMem_newline_of_solid hreads.solid
  have hnumbersLine : '\n' ∉ numbersText := by
    apply notMem_newline_printVector hnumbersText
    intro n _
    exact notMem_newline_of_solid (reads_printInt n).solid
  let layout := @writtenLayout F floats info colorsText numbersText
    (notMem_newline_of_solid hpeopleReads.solid)
    (notMem_newline_of_solid hscoreReads.solid) hcolorsLine hnumbersLine
  have hstoredInfo : layout.stored floats =
      ⟨info.people, score, stored, info.numbers⟩ := by
    unfold Layout.stored
    rw [MyInfo.mk.injEq]
    exact ⟨numberOf_token hpeopleReads 0,
      numberOf_token hscoreReads floats.zero,
      vectorOf_printVector hcolorsText hstored,
      vectorOf_printVector hnumbersText (reads_printInts info.numbers)⟩
  have hread := readFromFile_of_layout floats layout previous
  rw [hstoredInfo] at hread
  have hcolorsAgain : printVector floats.print stored = some colorsText := by
    rw [printVector_congr hprints, hcolorsText]
  refine ⟨_, ⟨info.people, score, stored, info.numbers⟩, ?_, hread.1, hread.2,
    rfl, rfl, ?_, hprints, ?_⟩
  · simp [writeToFile, printToStringStream, hcolorsText, hnumbersText]
  · simpa using congrArg List.length hprints
  · intro file2
    simp [writeToFile, printToStringStream, hcolorsAgain, hnumbersText,
      hscorePrint]

theorem readFromFile_writeToFile_colors :
    ∃ text info2,
      writeToFile wholeNumbers true none (some ⟨20, 99, [1, -2], []⟩) =
        some (true, some text) ∧
      (readFromFile wholeNumbers (some text) none).info = some info2 ∧
      info2.people = 20 ∧ info2.numbers = [] ∧ info2.colors.length = 2 := by
  have hstable (x : ℤ) : Stable wholeNumbers x :=
    ⟨x, @reads_printInteger ℤ id (fun _ => true) 0 x rfl, rfl⟩
  rcases readFromFile_writeToFile wholeNumbers ⟨20, 99, [1, -2], []⟩
      (by decide) (by decide) (hstable 99) (fun x _ => hstable x) none none with
    ⟨text, info2, hwrite, _, hinfo, hpeople, hnumbers, hlength, _⟩
  exact ⟨text, info2, hwrite, hinfo, hpeople, hnumbers, hlength⟩

/-! ## What the writer leaves -/

/-- The writer reports success and the file has the text, or it reports a
failure and the file is as it was. -/
def WritesOrKeeps (floats : FloatText F) (opens : Bool) (file : Option Text)
    (info : Option (MyInfo F)) : Prop :=
  (∃ written text, info = some written ∧
      printToStringStream floats written [] = some text ∧
      writeToFile floats opens file info = some (true, some text)) ∨
    writeToFile floats opens file info = some (false, file)

theorem printVector_isSome_iff (print : α → Text) (values : List α) :
    (∃ text, printVector print values = some text) ↔
      values.length < 2 ^ 31 := by
  constructor
  · rintro ⟨text, htext⟩
    by_contra hlength
    rw [printVector, if_neg hlength] at htext
    cases htext
  · exact printVector_eq_some print

theorem printToStringStream_isSome_iff (floats : FloatText F)
    (info : MyInfo F) (ss : Text) :
    (∃ text, printToStringStream floats info ss = some text) ↔
      info.colors.length < 2 ^ 31 ∧ info.numbers.length < 2 ^ 31 := by
  rw [← printVector_isSome_iff floats.print, ← printVector_isSome_iff printInt]
  constructor
  · rintro ⟨text, htext⟩
    rcases Option.bind_eq_some_iff.mp htext with ⟨colors, hcolors, hrest⟩
    rcases Option.bind_eq_some_iff.mp hrest with ⟨numbers, hnumbers, _⟩
    exact ⟨⟨colors, hcolors⟩, numbers, hnumbers⟩
  · rintro ⟨⟨colors, hcolors⟩, numbers, hnumbers⟩
    rw [printToStringStream, hcolors, hnumbers]
    exact ⟨_, rfl⟩

/-- The writer does one or the other exactly if the file cannot be opened, or
the pointer is not null and the loop counters do not overflow, or there was an
empty file before. -/
theorem writeToFile_writesOrKeeps_iff (floats : FloatText F) (opens : Bool)
    (file : Option Text) (info : Option (MyInfo F)) :
    WritesOrKeeps floats opens file info ↔
      (opens = true →
        match info with
        | none => file = some []
        | some written =>
            written.colors.length < 2 ^ 31 ∧
              written.numbers.length < 2 ^ 31) := by
  unfold WritesOrKeeps
  cases opens with
  | false => simp [writeToFile]
  | true =>
      cases info with
      | none => simp [writeToFile, eq_comm]
      | some written =>
          simp only [true_imp_iff,
            ← printToStringStream_isSome_iff floats written []]
          cases htext : printToStringStream floats written [] with
          | none => simp [writeToFile, htext]
          | some text => simp [writeToFile, htext]

/-- A null pointer empties a file. -/
theorem writeToFile_writesOrKeeps_fails :
    ¬∀ (floats : FloatText ℤ) (opens : Bool) (file : Option Text)
        (info : Option (MyInfo ℤ)), WritesOrKeeps floats opens file info := by
  intro hall
  rcases hall wholeNumbers true (some ['x']) none with
    ⟨written, text, hinfo, _⟩ | hkeeps
  · cases hinfo
  · exact absurd hkeeps (by decide)

end Miscellaneous.InfoFile
