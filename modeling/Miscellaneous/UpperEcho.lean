import Miscellaneous.CStrings
import Miscellaneous.GuardedRuns
import Mathlib.Tactic

/-!
# A client and the upper-casing server

The loops of `client_unix.c` and of `server_unix.c` after the connection has
been set up, as one step function.  An action is a system call of one of them
together with the local work up to its next one; the number of bytes that a
`read` returns is part of the action.  Both sides use one buffer for what they
receive and what they send.
-/

namespace Miscellaneous.UpperEcho

/-- `MAXLINE`, the size of the server's buffer. -/
def maxLine : ℕ := 80

/-- The size of the client's buffer. -/
def clientBufSize : ℕ := 100

def toupper (c : UInt8) : UInt8 :=
  if 97 ≤ c ∧ c ≤ 122 then c - 32 else c

inductive ClientPoint where
  | fgets
  | send
  | receive
  | display (n : ℕ)
  | exited
  deriving DecidableEq, Repr

inductive ServerPoint where
  | receive
  | send (n : ℕ)
  | closed
  deriving DecidableEq, Repr

inductive Action where
  | clientFgets
  | clientSend
  | clientReceive (n : ℕ)
  | clientDisplay
  | serverReceive (n : ℕ)
  | serverSend
  | serverEof
  deriving DecidableEq, Repr

/-- `sent` records the bytes the client has written to the socket; the programs
do not look at it. -/
structure State where
  client : ClientPoint
  clientBuf : List UInt8
  stdin : List UInt8
  stdout : List UInt8
  server : ServerPoint
  serverBuf : List UInt8
  upstream : List UInt8
  downstream : List UInt8
  sent : List UInt8
  deriving DecidableEq

/-- The buffers start with whatever is in memory. -/
def initial (clientBuf serverBuf input : List UInt8) : State where
  client := .fgets
  clientBuf := clientBuf
  stdin := input
  stdout := []
  server := .receive
  serverBuf := serverBuf
  upstream := []
  downstream := []
  sent := []

/-- `fgets` stores the line with its NUL; without a line the client closes the
socket and exits. -/
def stepFgets (s : State) : State :=
  if s.stdin = [] then { s with client := .exited }
  else
    let line := CString.fgets (maxLine - 1) s.stdin
    { s with
      client := .send
      clientBuf := CString.store s.clientBuf (line.1 ++ [0])
      stdin := line.2 }

def stepClientSend (s : State) : State :=
  let line := s.clientBuf.take (CString.strlen s.clientBuf)
  { s with
    client := .receive
    upstream := s.upstream ++ line
    sent := s.sent ++ line }

/-- What a `read` of up to `maxLine` bytes may return. -/
def Readable (stream : List UInt8) (n : ℕ) : Prop :=
  1 ≤ n ∧ n ≤ maxLine ∧ n ≤ stream.length

instance (stream : List UInt8) (n : ℕ) : Decidable (Readable stream n) :=
  inferInstanceAs (Decidable (_ ∧ _ ∧ _))

def stepClientReceive (s : State) (n : ℕ) : Option State :=
  if Readable s.downstream n then
    some { s with
      client := .display n
      clientBuf := CString.store s.clientBuf (s.downstream.take n)
      downstream := s.downstream.drop n }
  else if n = 0 ∧ s.downstream = [] ∧ s.server = .closed then
    some { s with client := .display 0 }
  else none

def stepClientDisplay (s : State) (n : ℕ) : State :=
  { s with client := .fgets, stdout := s.stdout ++ s.clientBuf.take n }

def stepServerReceive (s : State) (n : ℕ) : Option State :=
  if Readable s.upstream n then
    some { s with
      server := .send n
      serverBuf := CString.store s.serverBuf (s.upstream.take n)
      upstream := s.upstream.drop n }
  else none

/-- The bytes received are upper-cased in the buffer and sent back. -/
def stepServerSend (s : State) (n : ℕ) : State :=
  let buf := (s.serverBuf.take n).map toupper ++ s.serverBuf.drop n
  { s with
    server := .receive
    serverBuf := buf
    downstream := s.downstream ++ buf.take n }

def step (s : State) : Action → Option State
  | .clientFgets => if s.client = .fgets then some (stepFgets s) else none
  | .clientSend => if s.client = .send then some (stepClientSend s) else none
  | .clientReceive n =>
      if s.client = .receive then stepClientReceive s n else none
  | .clientDisplay =>
      match s.client with
      | .display n => some (stepClientDisplay s n)
      | _ => none
  | .serverReceive n =>
      if s.server = .receive then stepServerReceive s n else none
  | .serverSend =>
      match s.server with
      | .send n => some (stepServerSend s n)
      | _ => none
  | .serverEof =>
      if s.server = .receive ∧ s.upstream = [] ∧ s.client = .exited then
        some { s with server := .closed }
      else none

end Miscellaneous.UpperEcho
