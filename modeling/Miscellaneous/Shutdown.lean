import Miscellaneous.GuardedRuns
import Mathlib.Tactic

/-!
# A parent that terminates its child with a signal

The two processes of `shutdown.c` as one step function.  A label says which
process goes on, that a call of the parent fails, or that the signal is
delivered.  When the signal has been sent, the child may still come to the end
of the call that it is in; it does not go on before the signal is delivered: to
the handler if it is registered, and else to the default action, which kills.

Standard output is a terminal, so that a line is out when `puts` returns, and
the signal is delivered between whole calls of `puts` and `printf`.
-/

namespace Miscellaneous.Shutdown

def sigterm : ℤ := 15

inductive Line where
  | parentSleeping
  | childTerminated
  | wokeUp
  | receivedSignal (signum : ℤ)
  | aboutToTerminate
  | terminatingNow
  deriving DecidableEq, Repr

def Line.text : Line → String
  | .parentSleeping => "Parent sleeping for a time..."
  | .childTerminated => "My child terminated, about to exit myself..."
  | .wokeUp => "\tChild just woke up, but going back to sleep."
  | .receivedSignal signum =>
      "\tChild confirming received signal: " ++ toString signum
  | .aboutToTerminate => "\tChild about to terminate gracefully..."
  | .terminatingNow => "\tChild terminating now..."

def Line.ofChild : Line → Bool
  | .parentSleeping => false
  | .childTerminated => false
  | .wokeUp => true
  | .receivedSignal _ => true
  | .aboutToTerminate => true
  | .terminatingNow => true

/-- What the parent does next.  `failed` is the end after a call that did. -/
inductive Parent where
  | fork
  | announce
  | sleep
  | kill
  | wait
  | report
  | exited
  | failed
  deriving DecidableEq, Repr

/-- What the child does next: in `child_code`, in `graceful`, or not any more.
-/
inductive Child where
  | absent
  | setHandler
  | sleep
  | wake
  | confirm (signum : ℤ)
  | announce
  | gracefulSleep
  | terminate
  | exited
  | killed
  deriving DecidableEq, Repr

/-- The signal has not been sent or has been delivered, it has been sent and the
child is in a call, or it is due. -/
inductive Signal where
  | none
  | sent
  | due
  deriving DecidableEq, Repr

/-- A call of the child has come to its end. -/
def Signal.afterCall : Signal → Signal
  | .sent => .due
  | .none => .none
  | .due => .due

structure State where
  parent : Parent
  child : Child
  signal : Signal
  output : List Line
  deriving DecidableEq, Repr

inductive Label where
  | parent
  | parentFails
  | child
  | deliver
  deriving DecidableEq, Repr

def initial : State := ⟨.fork, .absent, .none, []⟩

def State.puts (state : State) (line : Line) : State :=
  { state with output := state.output ++ [line] }

/-- A zombie, which `wait` collects. -/
def Child.Ended (child : Child) : Prop := child = .exited ∨ child = .killed

instance (child : Child) : Decidable child.Ended :=
  inferInstanceAs (Decidable (_ ∨ _))

/-- The child is not in the handler, where the signal is blocked, and not at
its end. -/
def Child.Interruptible (child : Child) : Prop :=
  child = .setHandler ∨ child = .sleep ∨ child = .wake

instance (child : Child) : Decidable child.Interruptible :=
  inferInstanceAs (Decidable (_ ∨ _))

def stepParent (state : State) : Option State :=
  match state.parent with
  | .fork => some { state with parent := .announce, child := .setHandler }
  | .announce =>
      some { state.puts .parentSleeping with parent := .sleep }
  | .sleep => some { state with parent := .kill }
  | .kill => some { state with parent := .wait, signal := .sent }
  | .wait =>
      if state.child.Ended then some { state with parent := .report } else none
  | .report => some { state.puts .childTerminated with parent := .exited }
  | .exited => none
  | .failed => none

def stepParentFails (state : State) : Option State :=
  match state.parent with
  | .fork => some { state with parent := .failed }
  | .kill => some { state with parent := .failed }
  | .announce | .sleep | .wait | .report | .exited | .failed => none

/-- The next step of the child, with what it prints. -/
def Child.next : Child → Option (Child × List Line)
  | .setHandler => some (.sleep, [])
  | .sleep => some (.wake, [])
  | .wake => some (.sleep, [.wokeUp])
  | .confirm signum => some (.announce, [.receivedSignal signum])
  | .announce => some (.gracefulSleep, [.aboutToTerminate])
  | .gracefulSleep => some (.terminate, [])
  | .terminate => some (.exited, [.terminatingNow])
  | .absent | .exited | .killed => none

def stepChild (state : State) : Option State :=
  if state.signal = .due ∧ state.child.Interruptible then none
  else
    state.child.next.map fun (child, lines) =>
      { state with
        child := child
        signal := state.signal.afterCall
        output := state.output ++ lines }

/-- The handler is registered behind `set_handler`. -/
def stepDeliver (state : State) : Option State :=
  if state.signal ≠ .none ∧ state.child.Interruptible then
    some { state with
      signal := .none
      child := if state.child = .setHandler then .killed else .confirm sigterm }
  else none

def step (state : State) : Label → Option State
  | .parent => stepParent state
  | .parentFails => stepParentFails state
  | .child => stepChild state
  | .deliver => stepDeliver state

end Miscellaneous.Shutdown
