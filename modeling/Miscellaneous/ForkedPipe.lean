import Miscellaneous.CStrings
import Miscellaneous.GuardedRuns
import Mathlib.Tactic

/-!
# A parent and its child at the two ends of a pipe

`main` of `pipeUN.c`: the parent writes a message into the pipe, the child
copies it byte by byte to its standard output until there is nothing to read
and nobody left to write.  Each process holds its own copies of both ends
after the `fork`.  A call which blocks is not possible in the state; how many
bytes a `write` puts into the pipe at a time is up to the action.
-/

namespace Miscellaneous.ForkedPipe

/-- The message of the program. -/
def msg : CString where
  bytes := CString.ascii "Nature's first green is gold\n"
  nulFree := by decide

inductive Parent where
  | pipe
  | fork
  | closeReadEnd
  | write (rest : List UInt8)
  | closeWriteEnd
  | wait
  | exited
  | failed
  | killed
  deriving DecidableEq, Repr

inductive Child where
  | unborn
  | closeWriteEnd
  | read
  | echo (buf : UInt8)
  | closeReadEnd
  | exit
  | exited
  | reaped
  deriving DecidableEq, Repr

/-- `readEnds` and `writeEnds` are the open descriptors of the pipe. -/
structure State where
  bytes : List UInt8
  readEnds : ℕ
  writeEnds : ℕ
  parent : Parent
  child : Child
  output : List UInt8
  deriving DecidableEq, Repr

inductive Action where
  | parent
  | parentWrites (count : ℕ)
  | parentFails
  | child
  deriving DecidableEq, Repr

def initial : State where
  bytes := []
  readEnds := 0
  writeEnds := 0
  parent := .pipe
  child := .unborn
  output := []

/-- A `write` without a reader ends the process by `SIGPIPE`. -/
def stepParent (msg : CString) (s : State) : Option State :=
  match s.parent with
  | .pipe =>
      some { s with
        readEnds := s.readEnds + 1
        writeEnds := s.writeEnds + 1
        parent := .fork }
  | .fork =>
      some { s with
        readEnds := s.readEnds + 1
        writeEnds := s.writeEnds + 1
        parent := .closeReadEnd
        child := .closeWriteEnd }
  | .closeReadEnd =>
      some { s with
        readEnds := s.readEnds - 1
        parent := .write (msg.memory.take (CString.strlen msg.memory)) }
  | .write rest =>
      if rest = [] then some { s with parent := .closeWriteEnd }
      else if s.readEnds = 0 then
        some { s with writeEnds := s.writeEnds - 1, parent := .killed }
      else none
  | .closeWriteEnd =>
      some { s with writeEnds := s.writeEnds - 1, parent := .wait }
  | .wait =>
      if s.child = .exited then
        some { s with parent := .exited, child := .reaped }
      else none
  | .exited | .failed | .killed => none

/-- A blocking `write` goes on until all of its bytes are in the pipe. -/
def stepWrite (capacity : ℕ) (s : State) (count : ℕ) : Option State :=
  match s.parent with
  | .write rest =>
      if s.readEnds ≠ 0 ∧ 0 < count ∧ count ≤ rest.length ∧
          s.bytes.length + count ≤ capacity then
        some { s with
          bytes := s.bytes ++ rest.take count
          parent := .write (rest.drop count) }
      else none
  | _ => none

/-- `report_and_exit` after `pipe` or `fork`. -/
def stepFails (s : State) : Option State :=
  match s.parent with
  | .pipe => some { s with parent := .failed }
  | .fork => some { s with readEnds := 0, writeEnds := 0, parent := .failed }
  | _ => none

def stepChild (s : State) : Option State :=
  match s.child with
  | .closeWriteEnd =>
      some { s with writeEnds := s.writeEnds - 1, child := .read }
  | .read =>
      match s.bytes with
      | buf :: rest => some { s with bytes := rest, child := .echo buf }
      | [] =>
          if s.writeEnds = 0 then some { s with child := .closeReadEnd }
          else none
  | .echo buf => some { s with output := s.output ++ [buf], child := .read }
  | .closeReadEnd =>
      some { s with readEnds := s.readEnds - 1, child := .exit }
  | .exit => some { s with child := .exited }
  | .unborn | .exited | .reaped => none

def step (capacity : ℕ) (msg : CString) (s : State) : Action → Option State
  | .parent => stepParent msg s
  | .parentWrites count => stepWrite capacity s count
  | .parentFails => stepFails s
  | .child => stepChild s

end Miscellaneous.ForkedPipe
