import Miscellaneous.CStrings
import Miscellaneous.GuardedRuns
import Mathlib.Tactic

/-!
# Titles and their confirmations

The conversation of `sockets/client.c` with `sockets/server.c` over one
connection, as one step function.  An action is a system call of one of them
together with the local work up to its next one; the number of bytes that a
`read` returns is part of the action.  The titles and the number of rounds are
parameters.
-/

namespace Miscellaneous.Confirmations

def buffSize : ℕ := 256

/-- `books` and `ConversationLen`. -/
structure Setting where
  books : List CString
  conversationLen : ℕ
  enough : conversationLen ≤ books.length
  nonempty : ∀ book ∈ books, book.bytes ≠ []
  fits : ∀ book ∈ books, book.bytes.length ≤ buffSize

/-- The setting of the programs as they stand. -/
def sockSetting : Setting where
  books :=
    [⟨CString.ascii "War and Peace", by decide⟩,
      ⟨CString.ascii "Pride and Prejudice", by decide⟩,
      ⟨CString.ascii "The Sound and the Fury", by decide⟩]
  conversationLen := 3
  enough := le_refl 3
  nonempty := by decide
  fits := by decide

/-- `char buffer[BuffSize + 1]`, cleared. -/
def clearBuffer : List UInt8 := List.replicate (buffSize + 1) 0

inductive ClientPoint where
  | write
  | read
  | puts (buffer : List UInt8)
  | exited
  deriving DecidableEq, Repr

inductive ServerPoint where
  | read
  | echo (buffer : List UInt8)
  | closed
  deriving DecidableEq, Repr

inductive Action where
  | clientWrite
  | clientRead (count : ℕ)
  | clientPuts
  | clientClose
  | serverRead (count : ℕ)
  | serverEcho
  | serverClose
  deriving DecidableEq, Repr

/-- `confirmations` are the strings that the client has printed. -/
structure State where
  client : ClientPoint
  clientRound : ℕ
  confirmations : List (List UInt8)
  server : ServerPoint
  serverRound : ℕ
  upstream : List UInt8
  downstream : List UInt8
  deriving DecidableEq

def initial : State where
  client := .write
  clientRound := 0
  confirmations := []
  server := .read
  serverRound := 0
  upstream := []
  downstream := []

/-- What a `read` into the buffer may return. -/
def Readable (stream : List UInt8) (count : ℕ) : Prop :=
  1 ≤ count ∧ count ≤ buffSize + 1 ∧ count ≤ stream.length

instance (stream : List UInt8) (count : ℕ) :
    Decidable (Readable stream count) :=
  inferInstanceAs (Decidable (_ ∧ _ ∧ _))

/-- A write of no bytes is not answered, and the round is over. -/
def stepClientWrite (setting : Setting) (s : State) : Option State :=
  if s.clientRound < setting.conversationLen then
    match setting.books[s.clientRound]? with
    | some book =>
        if 0 < CString.strlen book.memory then
          some { s with
            client := .read
            upstream := s.upstream ++
              book.memory.take (CString.strlen book.memory) }
        else some { s with clientRound := s.clientRound + 1 }
    | none => none
  else none

def stepClientRead (s : State) (count : ℕ) : Option State :=
  if Readable s.downstream count then
    some { s with
      client := .puts (CString.store clearBuffer (s.downstream.take count))
      downstream := s.downstream.drop count }
  else if count = 0 ∧ s.downstream = [] ∧ s.server = .closed then
    some { s with client := .write, clientRound := s.clientRound + 1 }
  else none

def stepClientPuts (s : State) (buffer : List UInt8) : State :=
  { s with
    client := .write
    clientRound := s.clientRound + 1
    confirmations := s.confirmations ++ [CString.text buffer] }

def stepServerRead (setting : Setting) (s : State) (count : ℕ) :
    Option State :=
  if s.serverRound < setting.conversationLen then
    if Readable s.upstream count then
      some { s with
        server := .echo (CString.store clearBuffer (s.upstream.take count))
        upstream := s.upstream.drop count }
    else if count = 0 ∧ s.upstream = [] ∧ s.client = .exited then
      some { s with serverRound := s.serverRound + 1 }
    else none
  else none

/-- The whole buffer goes back. -/
def stepServerEcho (s : State) (buffer : List UInt8) : State :=
  { s with
    server := .read
    serverRound := s.serverRound + 1
    downstream := s.downstream ++ buffer }

def step (setting : Setting) (s : State) : Action → Option State
  | .clientWrite => if s.client = .write then stepClientWrite setting s else none
  | .clientRead count =>
      if s.client = .read then stepClientRead s count else none
  | .clientPuts =>
      match s.client with
      | .puts buffer => some (stepClientPuts s buffer)
      | _ => none
  | .clientClose =>
      if s.client = .write ∧ s.clientRound = setting.conversationLen then
        some { s with client := .exited }
      else none
  | .serverRead count =>
      if s.server = .read then stepServerRead setting s count else none
  | .serverEcho =>
      match s.server with
      | .echo buffer => some (stepServerEcho s buffer)
      | _ => none
  | .serverClose =>
      if s.server = .read ∧ s.serverRound = setting.conversationLen then
        some { s with server := .closed }
      else none

end Miscellaneous.Confirmations
