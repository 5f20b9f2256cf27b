import Miscellaneous.ByteRecords
import Miscellaneous.GuardedRuns
import Miscellaneous.PrimeTest
import Mathlib.Tactic

/-!
# The writer and the reader of the channel

`main` of `fifoWriter.c` and of `fifoReader.c` after both have opened the
channel, as one step function.  An action is a system call of one of them
together with the arithmetic up to its next one; what `rand` has drawn for a
chunk is part of the action.  A call that would block is not possible in the
state.  The number of outer iterations and the capacity of the channel are
parameters.
-/

namespace Miscellaneous.FifoPrimes

open ByteRecords PrimeTest

/-- `ChunkSize`, the number of chunks of one outer iteration. -/
def chunkSize : ℕ := 16

def intsPerChunk : ℕ := 4

def intSize : ℕ := 4

structure Setting where
  maxLoops : ℕ
  capacity : ℕ

def intBytes (value : Int32) : List UInt8 :=
  littleEndian intSize value.toUInt32.toNat

def intOfBytes (bytes : List UInt8) : Int32 :=
  (UInt32.ofNat (ofLittleEndian bytes)).toInt32

inductive Action where
  | write (chunk : List Int32)
  | pause
  | closeWriteEnd
  | read
  deriving DecidableEq

/-- `sent` and `reads` record the values written and the bytes that the reads
returned; the programs do not look at them. -/
structure State where
  i : ℕ
  j : ℕ
  writeEnd : Bool
  fifo : List UInt8
  reading : Bool
  total : UInt32
  primesCount : UInt32
  sent : List Int32
  reads : List (List UInt8)
  deriving DecidableEq

def initial : State where
  i := 0
  j := 0
  writeEnd := true
  fifo := []
  reading := true
  total := 0
  primesCount := 0
  sent := []
  reads := []

/-- A chunk of what `rand` can return, written as a whole if there is room. -/
def stepWrite (setting : Setting) (s : State) (chunk : List Int32) :
    Option State :=
  if s.i < setting.maxLoops ∧ s.j < chunkSize ∧
      chunk.length = intsPerChunk ∧ chunk.all (0 ≤ ·) = true ∧
      s.fifo.length + intsPerChunk * intSize ≤ setting.capacity then
    some { s with
      j := s.j + 1
      fifo := s.fifo ++ chunk.flatMap intBytes
      sent := s.sent ++ chunk }
  else none

/-- The end of an outer iteration with its `usleep`. -/
def stepPause (setting : Setting) (s : State) : Option State :=
  if s.i < setting.maxLoops ∧ s.j = chunkSize then
    some { s with i := s.i + 1, j := 0 }
  else none

def stepCloseWriteEnd (setting : Setting) (s : State) : Option State :=
  if s.i = setting.maxLoops ∧ s.writeEnd = true then
    some { s with writeEnd := false }
  else none

def State.receive (s : State) (bytes : List UInt8) : Option State :=
  if bytes.length = intSize then
    match isPrime (intOfBytes bytes).toUInt32 with
    | .error _ => none
    | .ok prime =>
        some { s with
          total := s.total + 1
          primesCount := if prime ≠ 0 then s.primesCount + 1 else s.primesCount }
  else some s

def stepRead (s : State) : Option State :=
  if s.reading then
    if s.fifo = [] then
      if s.writeEnd then none else some { s with reading := false }
    else
      { s with
        fifo := s.fifo.drop intSize
        reads := s.reads ++ [s.fifo.take intSize] }.receive
          (s.fifo.take intSize)
  else none

def step (setting : Setting) (s : State) : Action → Option State
  | .write chunk => stepWrite setting s chunk
  | .pause => stepPause setting s
  | .closeWriteEnd => stepCloseWriteEnd setting s
  | .read => stepRead s

end Miscellaneous.FifoPrimes
