import Miscellaneous.DecimalText
import Mathlib.Tactic

/-!
# The information file

`MyInfo`, `printToStringStream`, `writeToFile` and `readFromFile` of
`stringstream.cpp`.  How the library prints and reads a `float` is a
parameter.  A file that cannot be opened is `none`, and so is the result of
the writer where the `int` counter of its loop over a vector overflows.
-/

namespace Miscellaneous.InfoFile

open TextStreams DecimalText

structure MyInfo (F : Type*) where
  people : Int32
  score : F
  colors : List F
  numbers : List Int32
  deriving DecidableEq

/-- `operator<<` and `operator>>` for `float`, and `0.0f`. -/
structure FloatText (F : Type*) where
  zero : F
  print : F → Text
  reader : Reader F

def printInt (n : Int32) : Text := printInteger n.toInt

def fitsInt (z : ℤ) : Bool :=
  Int32.minValue.toInt ≤ z ∧ z ≤ Int32.maxValue.toInt

def intReader : Reader Int32 := integerReader Int32.ofIntClamp fitsInt 0

def infoLabel : Text := ['i', 'n', 'f', 'o', ':', ' ']

def colorsLabel : Text := ['c', 'o', 'l', 'o', 'r', 's', ':', ' ']

def numbersLabel : Text := ['n', 'u', 'm', 'b', 'e', 'r', 's', ':', ' ']

variable {F α : Type*}

/-- The size of a vector and its elements, a blank behind each. -/
def printVector (print : α → Text) (values : List α) : Option Text :=
  if values.length < 2 ^ 31 then
    some (Nat.toDigits 10 values.length ++ ' ' ::
      values.flatMap fun value => print value ++ [' '])
  else none

def printToStringStream (floats : FloatText F) (info : MyInfo F) (ss : Text) :
    Option Text := do
  let colors ← printVector floats.print info.colors
  let numbers ← printVector printInt info.numbers
  return ss ++
    (infoLabel ++ '\n' :: (printInt info.people ++ '\n' ::
      (floats.print info.score ++ '\n' ::
        (colorsLabel ++ colors ++ '\n' ::
          (numbersLabel ++ numbers ++ ['\n'])))))

/-- What `writeToFile` returns and what the file then is.  Opening the file
for writing truncates it. -/
def writeToFile (floats : FloatText F) (opens : Bool) (file : Option Text)
    (info : Option (MyInfo F)) : Option (Bool × Option Text) :=
  if opens then
    match info with
    | none => some (false, some [])
    | some info => do
        let text ← printToStringStream floats info []
        return (true, some text)
  else some (false, file)

structure Outcome (F : Type*) where
  returned : Bool
  info : Option (MyInfo F)
  console : List String

/-- What is done with the line of a vector, up to the end of its loop: the
label that was read, and the elements. -/
def readVector (reader : Reader α) (line : Text) : Text × List α :=
  let labelled := extract wordReader (Stream.start line)
  let counted := extract intReader labelled.1
  (labelled.2.getD [], (extractAll reader counted.1).1)

def findLabel (label : Text) : String :=
  "Find label: " ++ String.ofList label

def readFromFile (floats : FloatText F) (file : Option Text)
    (info : Option (MyInfo F)) : Outcome F :=
  match file with
  | none => ⟨false, info, []⟩
  | some content =>
      let data : MyInfo F := ⟨0, floats.zero, [], []⟩
      let (ifs, line) := getline (Stream.start content) []
      if !infoLabel.isPrefixOf line then
        ⟨false, info,
          ["Cannot find \"info: \" at the very beginning, format is wrong!"]⟩
      else
        let (ifs, line) := getline ifs line
        let people := (extract intReader (Stream.start line)).2.getD data.people
        let (ifs, line) := getline ifs line
        let score := (extract floats.reader (Stream.start line)).2.getD data.score
        let (ifs, line) := getline ifs line
        if !colorsLabel.isPrefixOf line then
          ⟨false, info,
            ["Cannot find \"colors: \" at the beginning of line, " ++
              "format is wrong!"]⟩
        else
          let (label, colors) := readVector floats.reader line
          let (_, line) := getline ifs line
          if !numbersLabel.isPrefixOf line then
            ⟨false, info,
              [findLabel label,
                "Cannot find \"numbers: \" at the beginning of line, " ++
                  "format is wrong!"]⟩
          else
            let (label', numbers) := readVector intReader line
            ⟨true, some { data with people, score, colors, numbers },
              [findLabel label, findLabel label']⟩

/-! ## The lines that are read -/

/-- What `line` holds after `count + 1` calls of `getline`. -/
def lineAt (content : Text) (count : ℕ) : Text :=
  (getlines (Stream.start content) [] (count + 1)).2

theorem lineAt_of_splitOn {content : Text} {pieces : List Text}
    (hpieces : content.splitOn '\n' = pieces) (hne : pieces ≠ [])
    (count : ℕ) :
    lineAt content count = pieces.getD count (pieces.getLast hne) := by
  subst hpieces
  exact getlines_start content [] count

theorem readFromFile_of_accepted (floats : FloatText F) {content : Text}
    (info : Option (MyInfo F))
    (hinfo : infoLabel.isPrefixOf (lineAt content 0) = true)
    (hcolors : colorsLabel.isPrefixOf (lineAt content 3) = true)
    (hnumbers : numbersLabel.isPrefixOf (lineAt content 4) = true) :
    readFromFile floats (some content) info =
      ⟨true,
        some {
          people := (extract intReader (Stream.start (lineAt content 1))).2.getD 0
          score := (extract floats.reader
            (Stream.start (lineAt content 2))).2.getD floats.zero
          colors := (readVector floats.reader (lineAt content 3)).2
          numbers := (readVector intReader (lineAt content 4)).2 },
        [findLabel (readVector floats.reader (lineAt content 3)).1,
          findLabel (readVector intReader (lineAt content 4)).1]⟩ := by
  simp only [lineAt, getlines] at *
  simp only [readFromFile, hinfo, hcolors, hnumbers, Bool.not_true,
    Bool.false_eq_true, if_false]

theorem readFromFile_of_rejected (floats : FloatText F) {content : Text}
    (info : Option (MyInfo F))
    (hlabels : ¬(infoLabel.isPrefixOf (lineAt content 0) = true ∧
      colorsLabel.isPrefixOf (lineAt content 3) = true ∧
      numbersLabel.isPrefixOf (lineAt content 4) = true)) :
    (readFromFile floats (some content) info).returned = false ∧
      (readFromFile floats (some content) info).info = info := by
  simp only [lineAt, getlines] at hlabels
  simp only [readFromFile]
  split_ifs with hinfo hcolors hnumbers
  · exact ⟨rfl, rfl⟩
  · exact ⟨rfl, rfl⟩
  · exact ⟨rfl, rfl⟩
  · simp_all

end Miscellaneous.InfoFile
