import Miscellaneous.ChatServerInvariant
import Mathlib.Logic.Function.Basic
import Mathlib.Tactic

/-!
# The clients of the chat server

Any number of processes running `main` of `chat_client.cpp` beside the server
of `chat_server.cpp`, as one step function.  Every connection is a pair of
byte streams.  How much a call transfers is part of the label, a `recv` of a
client that would block is not possible in the state, and any call may fail.

A `send` to a client that has exited may raise `SIGPIPE`, which the server
does not handle.  It loses all its descriptors then.
-/

namespace Miscellaneous.ChatClients

open ChatServer (Setting Answer openDescriptors message)

/-- The size of `recv_buf`. -/
def recvBufSize : ℕ := 1024

/-- Where a client is: at `connect`, at `getline` or `send`, or at `recv`.
`overrun` is the print of a buffer that has no zero byte left. -/
inductive Pc where
  | connecting
  | prompting
  | waiting
  | overrun
  | exited
  deriving DecidableEq, Repr

/-- The server's end of a connection: not there yet, in the backlog of the
listening socket, behind a descriptor, or closed. -/
inductive Link where
  | none
  | pending
  | accepted (fd : ℕ)
  | closed
  deriving DecidableEq, Repr

/-- `received` lists what the client has taken from its connection so far. -/
structure Client where
  pc : Pc
  link : Link
  toServer : List Char
  toClient : List Char
  received : List Char
  deriving DecidableEq, Repr

structure State where
  server : ChatServer.State
  killed : Bool
  clients : ℕ → Client

inductive Action where
  | connect
  | connectFails
  | sendLine (line : List Char) (count : ℕ)
  | sendFails
  | endOfInput
  | recv (count : ℕ)
  | recvClosed
  | recvFails
  deriving DecidableEq, Repr

inductive Label where
  | client (client : ℕ) (action : Action)
  | server (peer : ℕ) (answer : Answer)
  | brokenPipe (peer : ℕ)
  deriving DecidableEq

def start : Client where
  pc := .connecting
  link := .none
  toServer := []
  toClient := []
  received := []

def initial (setting : Setting) : State where
  server := ChatServer.initial setting
  killed := false
  clients := fun _ => start

def State.setClient (state : State) (client : ℕ) (value : Client) : State :=
  { state with clients := Function.update state.clients client value }

@[simp] theorem State.setClient_server (state : State) (client : ℕ)
    (value : Client) : (state.setClient client value).server = state.server :=
  rfl

theorem State.setClient_clients (state : State) (client other : ℕ)
    (value : Client) :
    (state.setClient client value).clients other =
      if other = client then value else state.clients other := by
  simp [State.setClient, Function.update_apply]

/-! ## The steps of a client -/

/-- `send` puts the first `count` bytes of the line on a connection whose
other end is still there.  `std::getline` takes no newline into the line. -/
def Client.sendLine (client : Client) (line : List Char) (count : ℕ) :
    Option Client :=
  if client.pc = .prompting ∧ '\n' ∉ line ∧ count ≤ line.length ∧
      (count = 0 → line = []) then
    some { client with
      pc := .waiting
      toServer :=
        if client.link = .closed then client.toServer
        else client.toServer ++ line.take count }
  else none

/-- `recv_buf` was cleared, so a `recv` that does not fill it leaves a zero
byte behind what it has stored. -/
def Client.recv (client : Client) (count : ℕ) : Option Client :=
  if client.pc = .waiting ∧ 0 < count ∧ count ≤ recvBufSize ∧
      count ≤ client.toClient.length then
    some { client with
      pc := if count < recvBufSize then .prompting else .overrun
      toClient := client.toClient.drop count
      received := client.received ++ client.toClient.take count }
  else none

/-- A `recv` of no bytes is no failure to the client: it goes on. -/
def Client.recvClosed (client : Client) : Option Client :=
  if client.pc = .waiting ∧ client.link = .closed ∧ client.toClient = [] then
    some { client with pc := .prompting }
  else none

def Client.connect (client : Client) : Option Client :=
  if client.pc = .connecting then
    some { client with pc := .prompting, link := .pending }
  else none

def Client.exit (client : Client) (pc : Pc) : Option Client :=
  if client.pc = pc then some { client with pc := .exited } else none

def Client.step (client : Client) : Action → Option Client
  | .connect => client.connect
  | .connectFails => client.exit .connecting
  | .sendLine line count => client.sendLine line count
  | .sendFails => client.exit .prompting
  | .endOfInput => client.exit .prompting
  | .recv count => client.recv count
  | .recvClosed => client.recvClosed
  | .recvFails => client.exit .waiting

/-! ## The steps of the server -/

/-- What the answer of a call of the server asks of the connection that it is
about. -/
def PeerAllows (server : ChatServer.State) (peer : Client) : Answer → Prop
  | .accepted _ => peer.link = .pending
  | .received len =>
      peer.link = .accepted server.i ∧ len ≤ peer.toServer.length
  | .recvEof =>
      peer.link = .accepted server.i ∧ peer.toServer = [] ∧ peer.pc = .exited
  | .recvWouldBlock => peer.link = .accepted server.i ∧ peer.toServer = []
  | .sent count => peer.link = .accepted server.i ∧ 0 < count
  | .recvFailed => peer.link = .accepted server.i
  | .sendFailed => peer.link = .accepted server.i
  | .tau | .selectFailed | .selected _ | .acceptWouldBlock | .acceptFailed =>
      True

instance (server : ChatServer.State) (peer : Client) (answer : Answer) :
    Decidable (PeerAllows server peer answer) := by
  cases answer <;> unfold PeerAllows <;> infer_instance

/-- What the answer does to that connection. -/
def Client.answered (peer : Client) : Answer → Client
  | .accepted fd => { peer with link := .accepted fd }
  | .received len => { peer with toServer := peer.toServer.drop len }
  | .sent count =>
      { peer with toClient := peer.toClient ++ message.toList.take count }
  | .tau | .selectFailed | .selected _ | .acceptWouldBlock | .acceptFailed
  | .recvEof | .recvWouldBlock | .recvFailed | .sendFailed => peer

/-- The connections whose descriptor is not open any more are closed, and
with the listening socket those in its backlog. -/
def Client.dropClosed (client : Client) (listenfd : ℕ) (fds : Finset ℕ) :
    Client :=
  match client.link with
  | .none => client
  | .pending =>
      if listenfd ∈ fds then client else { client with link := .closed }
  | .accepted fd =>
      if fd ∈ fds then client else { client with link := .closed }
  | .closed => client

def State.dropClosed (state : State) (listenfd : ℕ) (fds : Finset ℕ) : State :=
  { state with
    clients := fun client => (state.clients client).dropClosed listenfd fds }

def stepServer (setting : Setting) (state : State) (peer : ℕ)
    (answer : Answer) : Option State :=
  if state.killed = false ∧
      PeerAllows state.server (state.clients peer) answer then
    (ChatServer.step setting state.server answer).map fun server =>
      (State.setClient { state with server := server } peer
        ((state.clients peer).answered answer)).dropClosed setting.listenfd
          (openDescriptors setting.listenfd server.trace)
  else none

/-- `SIGPIPE` in the `send` to a client that has exited. -/
def stepBrokenPipe (setting : Setting) (state : State) (peer : ℕ) :
    Option State :=
  if state.killed = false ∧ state.server.pc = .sending ∧
      (state.clients peer).link = .accepted state.server.i ∧
      (state.clients peer).pc = .exited then
    some (State.dropClosed { state with killed := true } setting.listenfd ∅)
  else none

def Listening (setting : Setting) (state : State) : Prop :=
  state.killed = false ∧
    setting.listenfd ∈ openDescriptors setting.listenfd state.server.trace

instance (setting : Setting) (state : State) :
    Decidable (Listening setting state) :=
  inferInstanceAs (Decidable (_ ∧ _))

/-- Only a listening server lets a client connect. -/
def stepClient (setting : Setting) (state : State) (client : ℕ)
    (action : Action) : Option State :=
  if action = .connect → Listening setting state then
    ((state.clients client).step action).map (state.setClient client)
  else none

def step (setting : Setting) (state : State) : Label → Option State
  | .client client action => stepClient setting state client action
  | .server peer answer => stepServer setting state peer answer
  | .brokenPipe peer => stepBrokenPipe setting state peer

end Miscellaneous.ChatClients
