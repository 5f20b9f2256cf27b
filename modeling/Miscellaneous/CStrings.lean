import Mathlib.Tactic

/-!
# C strings

A C string is a sequence of bytes without NUL; in memory a NUL follows it.
The text at the start of a piece of memory is what stands before its first
NUL.
-/

structure CString where
  bytes : List UInt8
  nulFree : (0 : UInt8) ∉ bytes

namespace CString

/-- The bytes of a text of ASCII characters. -/
def ascii (text : String) : List UInt8 :=
  text.toList.map fun character => character.toNat.toUInt8

def memory (string : CString) : List UInt8 := string.bytes ++ [0]

def text (memory : List UInt8) : List UInt8 :=
  memory.takeWhile (· ≠ 0)

def strlen (memory : List UInt8) : ℕ := (text memory).length

/-- The bytes overwrite the start of the buffer. -/
def store (buffer bytes : List UInt8) : List UInt8 :=
  bytes ++ buffer.drop bytes.length

def newline : UInt8 := 10

/-- The line that `fgets` takes from a stream and the rest of the stream, with
room for `size` bytes and the NUL. -/
def fgets : ℕ → List UInt8 → List UInt8 × List UInt8
  | 0, stream => ([], stream)
  | _, [] => ([], [])
  | size + 1, byte :: stream =>
      if byte = newline then ([byte], stream)
      else (byte :: (fgets size stream).1, (fgets size stream).2)

theorem text_append_nul {bytes : List UInt8} (hbytes : (0 : UInt8) ∉ bytes)
    (rest : List UInt8) : text (bytes ++ 0 :: rest) = bytes := by
  have hall : ∀ byte ∈ bytes, decide (byte ≠ 0) = true := by
    intro byte hbyte
    exact decide_eq_true (ne_of_mem_of_not_mem hbyte hbytes)
  rw [text, List.takeWhile_append_of_pos hall]
  simp

@[simp] theorem text_memory (string : CString) :
    text string.memory = string.bytes :=
  text_append_nul string.nulFree []

@[simp] theorem strlen_memory (string : CString) :
    strlen string.memory = string.bytes.length := by
  rw [strlen, text_memory]

@[simp] theorem take_strlen_memory (string : CString) :
    string.memory.take (strlen string.memory) = string.bytes := by
  rw [strlen_memory, memory, List.take_left]

theorem length_store {buffer bytes : List UInt8}
    (hbytes : bytes.length ≤ buffer.length) :
    (store buffer bytes).length = buffer.length := by
  simp [store]
  omega

@[simp] theorem take_store (buffer bytes : List UInt8) :
    (store buffer bytes).take bytes.length = bytes :=
  List.take_left

theorem text_store_nul (buffer : List UInt8) {bytes : List UInt8}
    (hbytes : (0 : UInt8) ∉ bytes) :
    text (store buffer (bytes ++ [0])) = bytes := by
  rw [store, List.append_assoc]
  exact text_append_nul hbytes _

theorem take_strlen (memory : List UInt8) :
    memory.take (strlen memory) = text memory :=
  List.prefix_iff_eq_take.mp (List.takeWhile_prefix _) |>.symm

theorem fgets_append (size : ℕ) (stream : List UInt8) :
    (fgets size stream).1 ++ (fgets size stream).2 = stream := by
  induction size, stream using fgets.induct with
  | case1 stream => rfl
  | case2 size hsize => cases size <;> simp [fgets]
  | case3 size stream => simp [fgets]
  | case4 size byte stream hbyte ih => simp [fgets, hbyte, ih]

theorem length_fgets_le (size : ℕ) (stream : List UInt8) :
    (fgets size stream).1.length ≤ size := by
  induction size, stream using fgets.induct with
  | case1 stream => simp [fgets]
  | case2 size hsize => cases size <;> simp [fgets]
  | case3 size stream => simp [fgets]
  | case4 size byte stream hbyte ih => simpa [fgets, hbyte] using ih

end CString
