import Miscellaneous.PythonJson
import Mathlib.Tactic

/-!
# Bytes of a Python program

The bytes that a text file gets for a string, and the bytes that
`base64.b64decode` makes of a string.
-/

namespace PythonBytes

open PythonJson PythonStrings

abbrev Bytes := List UInt8

/-! ## UTF-8 -/

def utf8 (c : CodePoint) : Bytes :=
  if c.val < 0x80 then [.ofNat c.val]
  else if c.val < 0x800 then
    [.ofNat (0xC0 + c.val / 0x40), .ofNat (0x80 + c.val % 0x40)]
  else if c.val < 0x10000 then
    [.ofNat (0xE0 + c.val / 0x1000), .ofNat (0x80 + c.val / 0x40 % 0x40),
      .ofNat (0x80 + c.val % 0x40)]
  else
    [.ofNat (0xF0 + c.val / 0x40000), .ofNat (0x80 + c.val / 0x1000 % 0x40),
      .ofNat (0x80 + c.val / 0x40 % 0x40), .ofNat (0x80 + c.val % 0x40)]

/-- What is written to a text file. -/
def encodeText (text : Str) : Except Error Bytes :=
  match encode text with
  | some encoded => .ok (encoded.flatMap utf8)
  | none => .error .unicodeError

/-! ## Base 64 -/

def padding : CodePoint := ⟨61, by decide⟩

def sextet (c : CodePoint) : Option ℕ :=
  if 65 ≤ c.val ∧ c.val ≤ 90 then some (c.val - 65)
  else if 97 ≤ c.val ∧ c.val ≤ 122 then some (c.val - 71)
  else if 48 ≤ c.val ∧ c.val ≤ 57 then some (c.val + 4)
  else if c.val = 43 then some 62
  else if c.val = 47 then some 63
  else none

/-- The digits are read in fours; `left` holds the bits that are not yet in a
byte.  Other characters are skipped, and a group that the padding completes is
the last. -/
def readQuads (quadPos left pads : ℕ) : Str → Except Error Bytes
  | [] => if quadPos = 0 then .ok [] else .error .valueError
  | c :: rest =>
      if c = padding then
        if 2 ≤ quadPos then
          if 4 ≤ quadPos + (pads + 1) then .ok []
          else readQuads quadPos left (pads + 1) rest
        else readQuads quadPos left pads rest
      else
        match sextet c, quadPos with
        | none, _ => readQuads quadPos left pads rest
        | some digit, 0 => readQuads 1 digit 0 rest
        | some digit, 1 => do
            return .ofNat (left * 4 + digit / 16) ::
              (← readQuads 2 (digit % 16) 0 rest)
        | some digit, 2 => do
            return .ofNat (left * 16 + digit / 4) ::
              (← readQuads 3 (digit % 4) 0 rest)
        | some digit, _ => do
            return .ofNat (left * 64 + digit) :: (← readQuads 0 0 0 rest)

/-- `base64.b64decode`; the argument must be an ASCII string. -/
def b64decode {F : Type} : Value F → Except Error Bytes
  | .str s =>
      if s.all fun c => c.val < 128 then readQuads 0 0 0 s
      else .error .valueError
  | _ => .error .typeError

end PythonBytes
