import Miscellaneous.GuardedRuns
import Mathlib.Data.Finset.Sort
import Mathlib.Tactic

/-!
# The select loop of the chat server

`main` of `chat_server.cpp` as a step function.  A label is what the kernel
answers to the system call the program is at, or `tau` where the program runs
on by itself; a label that the contract of the call rules out gives `none`.
An `fd_set` is a finite set of descriptors below its size, and the trace lists
the calls and the "is readable" messages in order.

`accept` may return any descriptor below the process's limit that is not
open.  What `FD_SET` does with one that is no smaller than `FD_SETSIZE` is
undefined, and the run ends there.  `recv` and `send` may fail, block or
transfer any number of bytes that the call allows.
-/

namespace Miscellaneous.ChatServer

def fdSetSize : ℕ := 1024

def bufferSize : ℕ := 10240

def message : String :=
  "HTTP/1.1 200 OK\r\nContent-Type: application/json;charset=UTF-8\r\n" ++
    "Content-Length: 45\r\n\r\n" ++
    "\x7b\"result\":\"receive message success, select\"\x7d\r\n"

/-- The socket that `create_socket1` returned and the descriptor limit of the
process. -/
structure Setting where
  listenfd : ℕ
  fdLimit : ℕ

inductive Event where
  | readable (fd : ℕ)
  | accept (fd : ℕ)
  | acceptNone
  | recv (fd : ℕ)
  | send (fd : ℕ)
  | close (fd : ℕ)
  deriving DecidableEq, Repr

/-- The descriptors that are open after a trace: the listening one and the
accepted ones, as far as they have not been closed. -/
def openDescriptors (listenfd : ℕ) (trace : List Event) : Finset ℕ :=
  trace.foldl
    (fun fds event =>
      match event with
      | .accept fd => insert fd fds
      | .close fd => fds.erase fd
      | _ => fds)
    {listenfd}

inductive Answer where
  | tau
  | selectFailed
  | selected (ready : Finset ℕ)
  | accepted (fd : ℕ)
  | acceptWouldBlock
  | acceptFailed
  | received (len : ℕ)
  | recvEof
  | recvWouldBlock
  | recvFailed
  | sent (count : ℕ)
  | sendFailed
  deriving DecidableEq

/-- Where `main` is: at a system call, at the head of a loop, or behind the
receive loop.  `fault` is a `max_sd` that has been lowered below zero, and
`undefined` is behind an `FD_SET` outside of the set. -/
inductive Pc where
  | select
  | sweep
  | accepting
  | receiving
  | sending
  | closing
  | cleanup
  | exited
  | fault
  | undefined
  deriving DecidableEq, Repr

structure State where
  pc : Pc
  masterSet : Finset ℕ
  workingSet : Finset ℕ
  maxSd : ℕ
  i : ℕ
  descReady : ℕ
  endServer : Bool
  closeConn : Bool
  trace : List Event

/-- Behind `FD_SET(listenfd, &master_set)`. -/
def initial (setting : Setting) : State where
  pc := if setting.listenfd < fdSetSize then .select else .undefined
  masterSet := {setting.listenfd}
  workingSet := ∅
  maxSd := setting.listenfd
  i := 0
  descReady := 0
  endServer := false
  closeConn := false
  trace := []

/-- `while (FD_ISSET(max_sd, &master_set) == FALSE) max_sd -= 1`. -/
def lowerMaxSd (masterSet : Finset ℕ) : ℕ → Option ℕ
  | 0 => if 0 ∈ masterSet then some 0 else none
  | maxSd + 1 =>
      if maxSd + 1 ∈ masterSet then some (maxSd + 1)
      else lowerMaxSd masterSet maxSd

def cleanupCloses (masterSet : Finset ℕ) (maxSd : ℕ) : List ℕ :=
  (List.range (maxSd + 1)).filter (· ∈ masterSet)

def State.next (state : State) : State :=
  { state with pc := .sweep, i := state.i + 1 }

def State.log (state : State) (event : Event) : State :=
  { state with trace := state.trace ++ [event] }

/-- `desc_ready -= 1` and the message that `i` is readable. -/
def State.service (state : State) : State :=
  { state with descReady := state.descReady - 1 }.log (.readable state.i)

/-- `FD_SET(new_sd, &master_set); if (new_sd > max_sd) max_sd = new_sd`. -/
def State.addConnection (state : State) (newSd : ℕ) : State :=
  { state with
    pc := if newSd < fdSetSize then state.pc else .undefined
    masterSet := insert newSd state.masterSet
    maxSd := if newSd > state.maxSd then newSd else state.maxSd }.log
      (.accept newSd)

/-- `close(i); FD_CLR(i, &master_set)`. -/
def State.closeConnection (state : State) : State :=
  { state with masterSet := state.masterSet.erase state.i }.log
    (.close state.i)

/-- The condition of the outer loop, at its end or after `continue`. -/
def State.loop (state : State) : State :=
  if state.endServer then { state with pc := .cleanup }
  else { state with pc := .select }

@[simp] theorem State.loop_masterSet (state : State) :
    state.loop.masterSet = state.masterSet := by
  unfold State.loop
  split_ifs <;> rfl

@[simp] theorem State.loop_endServer (state : State) :
    state.loop.endServer = state.endServer := by
  unfold State.loop
  split_ifs <;> rfl

theorem State.endServer_of_loop_pc {state : State}
    (hselect : state.loop.pc = .select) : state.loop.endServer = false := by
  cases hend : state.endServer with
  | true => simp [State.loop, hend] at hselect
  | false => rw [State.loop_endServer, hend]

theorem State.loop_pc (state : State) :
    state.loop.pc = .cleanup ∨ state.loop.pc = .select := by
  unfold State.loop
  split_ifs
  · exact Or.inl rfl
  · exact Or.inr rfl

def stepSelect (state : State) : Answer → Option State
  | .selectFailed => some { state with pc := .cleanup }
  | .selected ready =>
      if ready ⊆ state.masterSet then
        if ready.card = 0 then
          some { state with workingSet := ready }.loop
        else
          some { state with
            pc := .sweep
            workingSet := ready
            descReady := ready.card
            i := 0 }
      else none
  | _ => none

def stepSweep (setting : Setting) (state : State) : Answer → Option State
  | .tau =>
      if state.i ≤ state.maxSd ∧ state.descReady > 0 then
        if state.i ∈ state.workingSet then
          if state.i = setting.listenfd then
            some { state.service with pc := .accepting }
          else some { state.service with pc := .receiving, closeConn := false }
        else some state.next
      else some state.loop
  | _ => none

def stepAccepting (setting : Setting) (state : State) :
    Answer → Option State
  | .accepted fd =>
      if fd < setting.fdLimit ∧
          fd ∉ openDescriptors setting.listenfd state.trace then
        some (state.addConnection fd)
      else none
  | .acceptWouldBlock => some (state.log .acceptNone).next
  | .acceptFailed =>
      some ({ state with endServer := true }.log .acceptNone).next
  | _ => none

def stepReceiving (state : State) : Answer → Option State
  | .received len =>
      if 0 < len ∧ len ≤ bufferSize then
        some ({ state with pc := .sending }.log (.recv state.i))
      else none
  | .recvEof =>
      some ({ state with pc := .closing, closeConn := true }.log
        (.recv state.i))
  | .recvWouldBlock =>
      some ({ state with pc := .closing }.log (.recv state.i))
  | .recvFailed =>
      some ({ state with pc := .closing, closeConn := true }.log
        (.recv state.i))
  | _ => none

def stepSending (state : State) : Answer → Option State
  | .sent count =>
      if count ≤ message.length then
        some ({ state with pc := .receiving }.log (.send state.i))
      else none
  | .sendFailed =>
      some ({ state with pc := .closing, closeConn := true }.log
        (.send state.i))
  | _ => none

def stepClosing (state : State) : Answer → Option State
  | .tau =>
      if state.closeConn then
        if state.i = state.maxSd then
          match lowerMaxSd (state.masterSet.erase state.i) state.maxSd with
          | some maxSd => some { state.closeConnection with maxSd := maxSd }.next
          | none => some { state.closeConnection with pc := .fault }
        else some state.closeConnection.next
      else some state.next
  | _ => none

def stepCleanup (state : State) : Answer → Option State
  | .tau =>
      some { state with
        pc := .exited
        trace := state.trace ++
          (cleanupCloses state.masterSet state.maxSd).map .close }
  | _ => none

def step (setting : Setting) (state : State) (answer : Answer) :
    Option State :=
  match state.pc with
  | .select => stepSelect state answer
  | .sweep => stepSweep setting state answer
  | .accepting => stepAccepting setting state answer
  | .receiving => stepReceiving state answer
  | .sending => stepSending state answer
  | .closing => stepClosing state answer
  | .cleanup => stepCleanup state answer
  | .exited => none
  | .fault => none
  | .undefined => none

end Miscellaneous.ChatServer
