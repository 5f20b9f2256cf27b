import Miscellaneous.CStrings
import Miscellaneous.GuardedRuns
import Mathlib.Tactic

/-!
# Writers and readers of a shared memory segment

`main` of `memwriter.c` and of `memreader.c`, any number of runs of each, as
one step function.  The name of the segment, the segments themselves and the
semaphore outlive the processes.  `strcpy` puts down one byte after the other;
`mmap` only gives an address to the segment that was opened, and `munmap`,
`close` and `sem_close` change nothing that another process sees.
-/

namespace Miscellaneous.SharedMemory

def byteSize : ℕ := 512

/-- `MemContents`. -/
def memContents : CString where
  bytes := CString.ascii "This is the way the world ends...\n"
  nulFree := by decide

inductive Program where
  | memwriter
  | memreader
  deriving DecidableEq, Repr

inductive WriterCall where
  | ftruncate
  | semOpen
  | strcpy (i : ℕ)
  | semPost
  | shmUnlink
  deriving DecidableEq, Repr

inductive ReaderCall where
  | semOpen
  | semWait
  | print (i : ℕ)
  | semPost
  deriving DecidableEq, Repr

/-- A process starts with `shm_open`, and then has a segment.  A reader comes
with what it has written to its standard output. -/
inductive Process where
  | shmOpen (program : Program)
  | writer (call : WriterCall) (segment : ℕ)
  | reader (call : ReaderCall) (segment : ℕ) (output : List UInt8)
  | exited (output : List UInt8)
  deriving DecidableEq, Repr

/-- `name` is the segment that `/shMemEx` names; a segment has no bytes until
it is given its size. -/
structure State (Pid : Type*) where
  segments : List (List UInt8)
  name : Option ℕ
  semaphore : Option ℕ
  processes : Pid → Process

inductive Action (Pid : Type*) where
  | call (pid : Pid)
  | interrupt (pid : Pid)

variable {Pid : Type*}

def initial (programs : Pid → Program) : State Pid where
  segments := []
  name := none
  semaphore := none
  processes := fun pid => .shmOpen (programs pid)

def State.memory (s : State Pid) (segment : ℕ) : List UInt8 :=
  s.segments[segment]?.getD []

def State.value (s : State Pid) : ℕ := s.semaphore.getD 0

def truncate (memory : List UInt8) (size : ℕ) : List UInt8 :=
  memory.take size ++ List.replicate (size - memory.length) 0

/-- The initial value counts only if the semaphore does not exist. -/
def State.semOpen (s : State Pid) (value : ℕ) : State Pid :=
  { s with semaphore := some (s.semaphore.getD value) }

def State.semPost (s : State Pid) : State Pid :=
  { s with semaphore := some (s.value + 1) }

variable [DecidableEq Pid]

def State.move (s : State Pid) (pid : Pid) (process : Process) : State Pid :=
  { s with processes := Function.update s.processes pid process }

/-- `shm_open` with `O_CREAT` in the writer and without it in the reader. -/
def stepOpen (s : State Pid) (pid : Pid) : Program → State Pid
  | .memwriter =>
      match s.name with
      | some segment => s.move pid (.writer .ftruncate segment)
      | none =>
          { s with
            segments := s.segments ++ [[]]
            name := some s.segments.length }.move pid
              (.writer .ftruncate s.segments.length)
  | .memreader =>
      match s.name with
      | some segment => s.move pid (.reader .semOpen segment [])
      | none => s.move pid (.exited [])

def stepWriter (s : State Pid) (pid : Pid) (segment : ℕ) :
    WriterCall → State Pid
  | .ftruncate =>
      { s with
        segments := s.segments.set segment
          (truncate (s.memory segment) byteSize) }.move pid
            (.writer .semOpen segment)
  | .semOpen => (s.semOpen 0).move pid (.writer (.strcpy 0) segment)
  | .strcpy i =>
      match memContents.memory[i]? with
      | some byte =>
          { s with
            segments := s.segments.set segment
              ((s.memory segment).set i byte) }.move pid
                (.writer (.strcpy (i + 1)) segment)
      | none => s.move pid (.writer .semPost segment)
  | .semPost => s.semPost.move pid (.writer .shmUnlink segment)
  | .shmUnlink => { s with name := none }.move pid (.exited [])

/-- A byte beyond the end of the segment cannot be written out. -/
def stepReader (s : State Pid) (pid : Pid) (segment : ℕ)
    (output : List UInt8) : ReaderCall → Option (State Pid)
  | .semOpen =>
      some ((s.semOpen 0).move pid (.reader .semWait segment output))
  | .semWait =>
      if 0 < s.value then
        some ({ s with semaphore := some (s.value - 1) }.move pid
          (.reader (.print 0) segment output))
      else none
  | .print i =>
      if i < CString.strlen memContents.memory then
        some (s.move pid (.reader (.print (i + 1)) segment
          (output ++ (s.memory segment)[i]?.toList)))
      else some (s.move pid (.reader .semPost segment output))
  | .semPost => some (s.semPost.move pid (.exited output))

def step (s : State Pid) : Action Pid → Option (State Pid)
  | .call pid =>
      match s.processes pid with
      | .shmOpen program => some (stepOpen s pid program)
      | .writer call segment => some (stepWriter s pid segment call)
      | .reader call segment output => stepReader s pid segment output call
      | .exited _ => none
  | .interrupt pid =>
      match s.processes pid with
      | .reader .semWait _ output => some (s.move pid (.exited output))
      | _ => none

end Miscellaneous.SharedMemory
