import Miscellaneous.NulFrames
import Miscellaneous.PrintedReads
import Mathlib.Tactic

/-!
# A client and the server that always answers "got it"

The loops of `socket_client.cpp` and of `socket_server.cpp` after the connection
has been set up, as one step function.  The client sends its content with the
NUL and takes what has come of the answers; the server answers whatever it has
read.  The number of bytes that a `recv` or a `read` returns is part of the
action, and a call that would block is not possible in the state.
-/

namespace Miscellaneous.SocketPair

open CString PrintedReads

/-- `content` of the client. -/
def content : CString where
  bytes := ascii "12345"
  nulFree := by decide

def answer : CString where
  bytes := gotIt
  nulFree := by decide

/-- The size of `recvBuf`. -/
def recvBufSize : ℕ := 20

/-- `BUF_SIZE` of the server. -/
def bufSize : ℕ := 256

inductive ServerPoint where
  | read
  | write
  | exited
  deriving DecidableEq, Repr

/-- `shown` are the buffers that the client has printed and `printed` those
that the server has printed, each with what the read had put into it. -/
structure State where
  receiving : Bool
  server : ServerPoint
  buffer : List UInt8
  upstream : List UInt8
  downstream : List UInt8
  shown : List (List UInt8)
  printed : List (List UInt8 × List UInt8)
  deriving DecidableEq, Repr

inductive Action where
  | send
  | recv (count : ℕ)
  | sendFails
  | recvFails
  | read (count : ℕ)
  | write
  | readFails
  | writeFails
  deriving DecidableEq, Repr

/-- The buffer of the server is not initialized. -/
def initial (buffer : List UInt8) : State where
  receiving := false
  server := .read
  buffer := buffer
  upstream := []
  downstream := []
  shown := []
  printed := []

/-- What a read with room for `size` bytes may return. -/
def Readable (size : ℕ) (stream : List UInt8) (count : ℕ) : Prop :=
  1 ≤ count ∧ count ≤ size ∧ count ≤ stream.length

instance (size : ℕ) (stream : List UInt8) (count : ℕ) :
    Decidable (Readable size stream count) :=
  inferInstanceAs (Decidable (_ ∧ _ ∧ _))

def State.show (s : State) (bytes : List UInt8) : State :=
  { s with
    receiving := false
    shown := s.shown ++ [store (List.replicate recvBufSize 0) bytes] }

/-- `recv` returns nothing when the server has closed the connection. -/
def stepRecv (s : State) (count : ℕ) : Option State :=
  if Readable recvBufSize s.downstream count then
    some { s.show (s.downstream.take count) with
      downstream := s.downstream.drop count }
  else if count = 0 ∧ s.downstream = [] ∧ s.server = .exited then
    some (s.show [])
  else none

/-- The server prints its buffer with what it has read. -/
def stepRead (s : State) (count : ℕ) : Option State :=
  if Readable bufSize s.upstream count then
    some { s with
      server := .write
      buffer := store s.buffer (s.upstream.take count)
      upstream := s.upstream.drop count
      printed := s.printed ++
        [(s.upstream.take count, store s.buffer (s.upstream.take count))] }
  else none

/-- `snprintf` and `write`. -/
def stepWrite (s : State) : State :=
  { s with
    server := .read
    buffer := store s.buffer answer.memory
    downstream := s.downstream ++ answer.memory }

def step (s : State) : Action → Option State
  | .send =>
      if s.receiving then none
      else some { s with
        receiving := true
        upstream := s.upstream ++ content.memory }
  | .sendFails => if s.receiving then none else some { s with receiving := true }
  | .recv count => if s.receiving then stepRecv s count else none
  | .recvFails => if s.receiving then some { s with receiving := false } else none
  | .read count => if s.server = .read then stepRead s count else none
  | .write => if s.server = .write then some (stepWrite s) else none
  | .readFails => if s.server = .read then some { s with server := .exited } else none
  | .writeFails =>
      if s.server = .write then some { s with server := .exited } else none

end Miscellaneous.SocketPair
