import Miscellaneous.ScanFormats
import Mathlib.Data.BitVec
import Mathlib.Tactic

/-!
# Reading a face line with `%hu` and with `%hd`

`read_from_file` of `test_fscanf` and its `main`, which reads one file with
both conversions and compares what they have stored.  A file is its text, or
`none` when it cannot be opened.

A conversion turns its numeral into a `long` or an `unsigned long`, where a
number that does not fit becomes the nearest one, and stores the low 16 bits.
A first word that does not fit into `line_header` is written over its end.
-/

namespace Miscellaneous.FaceFile

open TextStreams ScanFormats

/-- The size of `line_header`. -/
def lineHeaderSize : ℕ := 128

def strtol (z : ℤ) : ℤ := max (-2 ^ 63) (min z (2 ^ 63 - 1))

/-- A minus sign negates the `unsigned long`. -/
def strtoul (z : ℤ) : ℤ := if 2 ^ 64 ≤ z.natAbs then 2 ^ 64 - 1 else z % 2 ^ 64

/-- What `%hd` stores. -/
def short (z : ℤ) : BitVec 16 := BitVec.ofInt 16 (strtol z)

/-- What `%hu` stores. -/
def unsignedShort (z : ℤ) : BitVec 16 := BitVec.ofInt 16 (strtoul z)

def convert (flagUnsigned : Bool) : ℤ → BitVec 16 :=
  if flagUnsigned then unsignedShort else short

/-- The directives of a format with the conversions `%hu` and `%hd` only. -/
def directives : Text → Option (List (Directive (BitVec 16)))
  | [] => some []
  | '%' :: 'h' :: 'u' :: format =>
      (directives format).map (.number unsignedShort :: ·)
  | '%' :: 'h' :: 'd' :: format => (directives format).map (.number short :: ·)
  | '%' :: _ => none
  | c :: format =>
      (directives format).map ((if isSpace c then .blank else .char c) :: ·)

def format (flagUnsigned : Bool) : String :=
  if flagUnsigned then "%hu/%hu/%hu %hu/%hu/%hu %hu/%hu/%hu\n"
  else "%hd/%hd/%hd %hd/%hd/%hd %hd/%hd/%hd\n"

/-- The second `fscanf`, on what the first one has left. -/
def scanFace (flagUnsigned : Bool) (text : Text) : List (BitVec 16) :=
  match directives (format flagUnsigned).toList with
  | some format => (scan format text).items
  | none => []

/-- `fscanf(file, "%s", ..)`: the next word and what is behind it, or `EOF`. -/
def scanWord (text : Text) : Option (Text × Text) :=
  let word := text.dropWhile isSpace
  if word = [] then none
  else some (word.takeWhile (!isSpace ·), word.dropWhile (!isSpace ·))

/-- The text that `strcmp` sees. -/
def cText (word : Text) : Text := word.takeWhile (· != '\x00')

/-- `overrun` is a write behind the end of `line_header`. -/
inductive Outcome where
  | overrun
  | returns (result : Bool) (data : List (BitVec 16))
  deriving DecidableEq, Repr

/-- The values that were scanned are stored from `data[0]` on. -/
def store (values data : List (BitVec 16)) : List (BitVec 16) :=
  values ++ data.drop values.length

def readFromFile (file : Option Text) (data : List (BitVec 16))
    (flagUnsigned : Bool) : Outcome :=
  match file with
  | none => .returns false data
  | some text =>
      match scanWord text with
      | none => .returns false data
      | some (lineHeader, rest) =>
          if lineHeader.length ≥ lineHeaderSize then .overrun
          else if cText lineHeader = ['f'] then
            .returns true (store (scanFace flagUnsigned rest) data)
          else .returns true data

/-- What `main` prints: the arrays that a read has returned true for, and
whether the arrays are the same. -/
structure Report where
  data1 : Option (List (BitVec 16))
  data2 : Option (List (BitVec 16))
  same : Bool
  deriving DecidableEq, Repr

def printed (result : Bool) (data : List (BitVec 16)) :
    Option (List (BitVec 16)) :=
  if result then some data else none

/-- `{1}` sets the first element only. -/
def main (file : Option Text) : Option Report :=
  match readFromFile file (List.replicate 9 0) true,
      readFromFile file (1 :: List.replicate 8 0) false with
  | .returns result1 data1, .returns result2 data2 =>
      some ⟨printed result1 data1, printed result2 data2, data1 == data2⟩
  | .overrun, _ => none
  | .returns _ _, .overrun => none

end Miscellaneous.FaceFile
