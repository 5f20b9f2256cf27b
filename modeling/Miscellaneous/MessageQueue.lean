import Miscellaneous.CStrings
import Miscellaneous.GuardedRuns
import Miscellaneous.TypedQueues
import Mathlib.Tactic

/-!
# Senders and receivers of a message queue

`main` of `mqueue/sender.c` and of `mqueue/receiver.c`, any number of runs of
each, as one step function over the System V queues of one key.  No call
blocks: `msgsnd` leaves out a message which the queue has no room for, and
`msgrcv` reports trouble when there is no message of its type.
-/

namespace Miscellaneous.MessageQueue

open TypedQueues

def msgLen : ℕ := 4

/-- The type and the five bytes of the payload. -/
abbrev QueuedMessage := Message ℕ (List UInt8)

/-- The messages of `sender.c`, in the order of its two tables. -/
def messages : List QueuedMessage :=
  [⟨1, CString.ascii "msg1" ++ [0]⟩, ⟨1, CString.ascii "msg2" ++ [0]⟩,
    ⟨2, CString.ascii "msg3" ++ [0]⟩, ⟨2, CString.ascii "msg4" ++ [0]⟩,
    ⟨3, CString.ascii "msg5" ++ [0]⟩, ⟨3, CString.ascii "msg6" ++ [0]⟩]

/-- The types that `receiver.c` asks for. -/
def types : List ℕ := [3, 1, 2, 1, 3, 2]

inductive Program where
  | sender
  | receiver
  deriving DecidableEq, Repr

/-- A process starts with `ftok` and `msgget`.  A sender comes with the index
of its loop, a receiver with what `msgrcv` has given it so far: `none` is
"msgrcv trouble...". -/
inductive Process where
  | start (program : Program)
  | sending (qid i : ℕ)
  | receiving (qid : ℕ) (received : List (Option QueuedMessage))
  | exited (received : List (Option QueuedMessage))
  | failed (received : List (Option QueuedMessage))
  deriving DecidableEq, Repr

def Process.received : Process → List (Option QueuedMessage)
  | .receiving _ received | .exited received | .failed received => received
  | .start _ | .sending _ _ => []

/-- A queue that is removed keeps here what was in it. -/
structure Queue where
  messages : List QueuedMessage
  removed : Bool
  deriving DecidableEq, Repr

/-- `created` queues have had their identifiers; `qid` is the one that the
key names. -/
structure State (Pid : Type*) where
  queues : ℕ → Queue
  created : ℕ
  qid : Option ℕ
  processes : Pid → Process

inductive Action (Pid : Type*) where
  | call (pid : Pid)
  | refuse (pid : Pid)

/-- The room for one more message, of `qbytes` in all. -/
def Queue.Accepts (qbytes : ℕ) (queue : Queue) : Prop :=
  queue.removed = false ∧ (queue.messages.length + 1) * (msgLen + 1) ≤ qbytes

instance (qbytes : ℕ) (queue : Queue) : Decidable (queue.Accepts qbytes) := by
  unfold Queue.Accepts
  infer_instance

def Queue.msgsnd (qbytes : ℕ) (queue : Queue) (message : QueuedMessage) :
    Queue :=
  if queue.Accepts qbytes then
    { queue with messages := queue.messages ++ [message] }
  else queue

def Queue.msgrcv (queue : Queue) (type : ℕ) :
    Option (QueuedMessage × Queue) :=
  if queue.removed then none
  else (take type queue.messages).map fun taken =>
    (taken.1, { queue with messages := taken.2 })

variable {Pid : Type*}

def initial (programs : Pid → Program) : State Pid where
  queues := fun _ => { messages := [], removed := false }
  created := 0
  qid := none
  processes := fun pid => .start (programs pid)

def Program.run (qid : ℕ) : Program → Process
  | .sender => .sending qid 0
  | .receiver => .receiving qid []

variable [DecidableEq Pid]

def State.move (s : State Pid) (pid : Pid) (process : Process) : State Pid :=
  { s with processes := Function.update s.processes pid process }

def State.setQueue (s : State Pid) (qid : ℕ) (queue : Queue) : State Pid :=
  { s with queues := Function.update s.queues qid queue }

/-- `msgget` with `IPC_CREAT`. -/
def stepGet (s : State Pid) (pid : Pid) (program : Program) : State Pid :=
  match s.qid with
  | some qid => s.move pid (program.run qid)
  | none =>
      { s with created := s.created + 1, qid := some s.created }.move pid
        (program.run s.created)

def stepSender (qbytes : ℕ) (s : State Pid) (pid : Pid) (qid i : ℕ) :
    State Pid :=
  match messages[i]? with
  | some message =>
      (s.setQueue qid ((s.queues qid).msgsnd qbytes message)).move pid
        (.sending qid (i + 1))
  | none => s.move pid (.exited [])

/-- `msgctl` with `IPC_RMID`. -/
def stepRemove (s : State Pid) (pid : Pid) (qid : ℕ)
    (received : List (Option QueuedMessage)) : State Pid :=
  if (s.queues qid).removed then s.move pid (.failed received)
  else
    { s.setQueue qid { s.queues qid with removed := true } with
      qid := none }.move pid (.exited received)

def stepReceiver (s : State Pid) (pid : Pid) (qid : ℕ)
    (received : List (Option QueuedMessage)) : State Pid :=
  match types[received.length]? with
  | some type =>
      match (s.queues qid).msgrcv type with
      | some taken =>
          (s.setQueue qid taken.2).move pid
            (.receiving qid (received ++ [some taken.1]))
      | none => s.move pid (.receiving qid (received ++ [none]))
  | none => stepRemove s pid qid received

def step (qbytes : ℕ) (s : State Pid) : Action Pid → Option (State Pid)
  | .call pid =>
      match s.processes pid with
      | .start program => some (stepGet s pid program)
      | .sending qid i => some (stepSender qbytes s pid qid i)
      | .receiving qid received => some (stepReceiver s pid qid received)
      | .exited _ | .failed _ => none
  | .refuse pid =>
      match s.processes pid with
      | .start _ => some (s.move pid (.failed []))
      | _ => none

end Miscellaneous.MessageQueue
