import Miscellaneous.CStrings
import Miscellaneous.GuardedRuns
import Miscellaneous.RecordLocks
import Mathlib.Tactic

/-!
# Producers and consumers of a locked file

`main` of `producer.c` and of `consumer.c`, any number of each, as one step
function.  A process is at the system call that it takes next; the write of a
producer puts down one byte after the other.  A process without a lock may
also end at any time.
-/

namespace Miscellaneous.FlockFile

open RecordLocks

inductive ProducerCall where
  | openFile
  | setLock
  | write (offset : ℕ)
  | unlock
  | close
  | exited
  deriving DecidableEq, Repr

inductive ConsumerCall where
  | openFile
  | getLock
  | setLock
  | read (offset : ℕ)
  | print (offset : ℕ) (c : UInt8)
  | unlock
  | close
  | exited
  deriving DecidableEq, Repr

/-- A consumer comes with what it has written to its standard output. -/
inductive Process where
  | producer (call : ProducerCall)
  | consumer (call : ConsumerCall) (output : List UInt8)
  deriving DecidableEq, Repr

inductive Program where
  | producer
  | consumer
  deriving DecidableEq, Repr

def Program.start : Program → Process
  | .producer => .producer .openFile
  | .consumer => .consumer .openFile []

/-- `file` is `data.dat`, `none` as long as it does not exist. -/
structure State (Pid : Type*) where
  file : Option (List UInt8)
  locks : Table Pid
  processes : Pid → Process

inductive Action (Pid : Type*) where
  | call (pid : Pid)
  | halt (pid : Pid)

variable {Pid : Type*}

def initial (present : Bool) (programs : Pid → Program) : State Pid where
  file := if present then some [] else none
  locks := Table.empty
  processes := fun pid => (programs pid).start

def State.content (s : State Pid) : List UInt8 := s.file.getD []

variable [DecidableEq Pid]

def State.move (s : State Pid) (pid : Pid) (process : Process) : State Pid :=
  { s with processes := Function.update s.processes pid process }

@[simp] theorem State.content_move (s : State Pid) (pid : Pid)
    (process : Process) : (s.move pid process).content = s.content := rfl

@[simp] theorem State.locks_move (s : State Pid) (pid : Pid)
    (process : Process) : (s.move pid process).locks = s.locks := rfl

@[simp] theorem State.processes_move_self (s : State Pid) (pid : Pid)
    (process : Process) : (s.move pid process).processes pid = process :=
  Function.update_self _ _ _

theorem State.processes_move_of_ne (s : State Pid) {pid other : Pid}
    (hother : other ≠ pid) (process : Process) :
    (s.move pid process).processes other = s.processes other :=
  Function.update_of_ne hother _ _

/-- `close` and the end of a process drop the locks of the process. -/
def State.unlock (s : State Pid) (pid : Pid) : State Pid :=
  { s with locks := s.locks.clear pid }

@[simp] theorem State.content_unlock (s : State Pid) (pid : Pid) :
    (s.unlock pid).content = s.content := rfl

/-- The bytes of `write(fd, DataString, strlen(DataString))`. -/
def message (dataString : CString) : List UInt8 :=
  dataString.memory.take (CString.strlen dataString.memory)

/-- A byte written behind the end of a file leaves a gap of zeros. -/
def writeAt (content : List UInt8) (offset : ℕ) (byte : UInt8) : List UInt8 :=
  content.take offset ++ List.replicate (offset - content.length) 0 ++
    byte :: content.drop (offset + 1)

def stepProducer (dataString : CString) (s : State Pid) (pid : Pid) :
    ProducerCall → Option (State Pid)
  | .openFile =>
      some ({ s with file := some s.content }.move pid (.producer .setLock))
  | .setLock =>
      match s.locks.set pid .write with
      | some locks =>
          some ({ s with locks := locks }.move pid (.producer (.write 0)))
      | none => some ((s.unlock pid).move pid (.producer .exited))
  | .write offset =>
      match (message dataString)[offset]? with
      | some byte =>
          some ({ s with file := some (writeAt s.content offset byte) }.move pid
            (.producer (.write (offset + 1))))
      | none => some (s.move pid (.producer .unlock))
  | .unlock => some ((s.unlock pid).move pid (.producer .close))
  | .close => some ((s.unlock pid).move pid (.producer .exited))
  | .exited => none

def stepConsumer (s : State Pid) (pid : Pid) (output : List UInt8) :
    ConsumerCall → Option (State Pid)
  | .openFile =>
      match s.file with
      | some _ => some (s.move pid (.consumer .getLock output))
      | none => some ((s.unlock pid).move pid (.consumer .exited output))
  | .getLock =>
      match s.locks.blocking pid .write with
      | none => some (s.move pid (.consumer .setLock output))
      | some _ => some ((s.unlock pid).move pid (.consumer .exited output))
  | .setLock =>
      match s.locks.set pid .read with
      | some locks =>
          some ({ s with locks := locks }.move pid
            (.consumer (.read 0) output))
      | none => some ((s.unlock pid).move pid (.consumer .exited output))
  | .read offset =>
      match s.content[offset]? with
      | some c => some (s.move pid (.consumer (.print (offset + 1) c) output))
      | none => some (s.move pid (.consumer .unlock output))
  | .print offset c =>
      some (s.move pid (.consumer (.read offset) (output ++ [c])))
  | .unlock => some ((s.unlock pid).move pid (.consumer .close output))
  | .close => some ((s.unlock pid).move pid (.consumer .exited output))
  | .exited => none

def Process.exit : Process → Process
  | .producer _ => .producer .exited
  | .consumer _ output => .consumer .exited output

def step (dataString : CString) (s : State Pid) :
    Action Pid → Option (State Pid)
  | .call pid =>
      match s.processes pid with
      | .producer call => stepProducer dataString s pid call
      | .consumer call output => stepConsumer s pid output call
  | .halt pid =>
      if s.locks.locks.all (fun lock => lock.1 ≠ pid) then
        some (s.move pid (s.processes pid).exit)
      else none

end Miscellaneous.FlockFile
