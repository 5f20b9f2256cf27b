import Miscellaneous.ChatClientsRuns
import Mathlib.Tactic

/-!
# How much the clients of the chat server are answered

What a client has received, and what is on the way to it, is made of pieces of
the server's message.  There is at most one piece for each byte the client has
sent, since the server answers once for each `recv`.
-/

namespace Miscellaneous.ChatClients

open GuardedRuns
open ChatServer (Setting Answer message)

variable {setting : Setting} {s t : State}

/-- The bytes of the client's lines in a run. -/
def sentBytes (c : ℕ) : Label → ℕ
  | .client client (.sendLine _ count) => if client = c then count else 0
  | .client _ .connect | .client _ .connectFails | .client _ .sendFails
  | .client _ .endOfInput | .client _ (.recv _) | .client _ .recvClosed
  | .client _ .recvFails | .server _ _ | .brokenPipe _ => 0

def typedBytes (c : ℕ) (labels : List Label) : ℕ :=
  (labels.map (sentBytes c)).sum

@[simp] theorem typedBytes_cons (c : ℕ) (label : Label) (labels : List Label) :
    typedBytes c (label :: labels) =
      sentBytes c label + typedBytes c labels := rfl

/-- Whether the server is at its answer to the client. -/
def owed (s : State) (c : ℕ) : ℕ :=
  if s.server.pc = .sending ∧ (s.clients c).link = .accepted s.server.i then 1
  else 0

/-- `bytes` are pieces of the message, each of them the beginning that one
`send` got through. -/
def MadeOf (bytes : List Char) (pieces : List (List Char)) : Prop :=
  bytes = pieces.flatten ∧
    ∀ piece ∈ pieces, piece ≠ [] ∧ piece <+: message.toList

/-- The bytes that the client has been sent so far. -/
def State.answered (s : State) (c : ℕ) : List Char :=
  (s.clients c).received ++ (s.clients c).toClient

/-- Each byte that the client has sent is on the way, or has been taken with a
`recv` that is answered, or is about to be. -/
def Counted (typed : ℕ) (s : State) (c : ℕ) : Prop :=
  ∃ pieces, MadeOf (s.answered c) pieces ∧
    pieces.length + (s.clients c).toServer.length + owed s c ≤ typed

theorem owed_le (s : State) (c : ℕ) : owed s c ≤ 1 := by
  unfold owed
  split_ifs <;> omega

theorem MadeOf.append {bytes : List Char} {pieces : List (List Char)}
    (hmade : MadeOf bytes pieces) {count : ℕ} (hpos : 0 < count) :
    MadeOf (bytes ++ message.toList.take count)
      (pieces ++ [message.toList.take count]) := by
  refine ⟨by simp [hmade.1], ?_⟩
  intro piece hpiece
  rcases List.mem_append.mp hpiece with hold | hnew
  · exact hmade.2 piece hold
  · rw [List.mem_singleton] at hnew
    subst hnew
    exact ⟨take_message_ne_nil hpos, List.take_prefix _ _⟩

theorem MadeOf.length_le {bytes : List Char} {pieces : List (List Char)}
    (hmade : MadeOf bytes pieces) : bytes.length ≤ 131 * pieces.length := by
  rw [hmade.1, List.length_flatten]
  have hpiece : ∀ length ∈ pieces.map List.length, length ≤ 131 := by
    intro length hlength
    rcases List.mem_map.mp hlength with ⟨piece, hmem, rfl⟩
    have hle := (hmade.2 piece hmem).2.length_le
    rwa [String.length_toList, ChatServer.message_length] at hle
  have hsum := List.sum_le_card_nsmul _ _ hpiece
  rw [List.length_map, smul_eq_mul] at hsum
  omega

/-- A client only moves bytes from the connection to what it has. -/
theorem Client.Move.answered {client value : Client} {action : Action}
    (hmove : client.Move action value) :
    value.received ++ value.toClient =
      client.received ++ client.toClient := by
  cases hmove with
  | @recv count _ _ _ _ =>
      calc
        (client.received ++ client.toClient.take count) ++
              client.toClient.drop count =
            client.received ++ (client.toClient.take count ++
              client.toClient.drop count) := List.append_assoc _ _ _
        _ = client.received ++ client.toClient := by
            rw [List.take_append_drop]
  | _ => rfl

theorem Client.Move.toServer_length {client value : Client} {action : Action}
    (hmove : client.Move action value) (c : ℕ) :
    value.toServer.length ≤
      client.toServer.length + sentBytes c (.client c action) := by
  cases hmove with
  | @sendLine line count _ _ _ =>
      simp only [sentBytes, if_pos]
      split_ifs
      · omega
      · rw [List.length_append, List.length_take]
        omega
  | _ => exact Nat.le_add_right _ _

theorem Counted.client {typed c client : ℕ} {action : Action} {value : Client}
    (hcounted : Counted typed s c)
    (hmove : (s.clients client).Move action value) :
    Counted (typed + sentBytes c (.client client action))
      (s.setClient client value) c := by
  rcases hcounted with ⟨pieces, hmade, hle⟩
  by_cases hc : c = client
  · subst hc
    have hvalue : (s.setClient c value).clients c = value := by
      rw [State.setClient_clients, if_pos rfl]
    have howed : owed (s.setClient c value) c ≤ owed s c := by
      unfold owed
      rw [hvalue]
      rcases hmove.link with hsame | ⟨_, hpending⟩
      · rw [hsame]
        rfl
      · simp [hpending]
    have hlength := hmove.toServer_length c
    refine ⟨pieces, ?_, ?_⟩
    · unfold State.answered
      rw [hvalue, hmove.answered]
      exact hmade
    · rw [hvalue]
      omega
  · have hsame : (s.setClient client value).clients c = s.clients c := by
      rw [State.setClient_clients, if_neg hc]
    refine ⟨pieces, ?_, ?_⟩
    · unfold State.answered
      rw [hsame]
      exact hmade
    · unfold owed at hle ⊢
      rw [hsame]
      exact hle.trans (Nat.le_add_right _ _)

theorem served_received (setting : Setting) (s : State) (peer : ℕ)
    (answer : Answer) (server : ChatServer.State) (client : ℕ) :
    ((s.served setting peer answer server).clients client).received =
      (s.clients client).received := by
  rw [State.served_clients, Client.dropClosed_received]
  split_ifs with hpeer
  · rw [hpeer, Client.answered_received]
  · rfl

/-- A step of the server which is about another client, or neither takes nor
sends bytes. -/
theorem Counted.frame {typed c peer : ℕ} {answer : Answer}
    {server : ChatServer.State} (hcounted : Counted typed s c)
    (htoServer : ((s.served setting peer answer server).clients c).toServer =
      (s.clients c).toServer)
    (htoClient : ((s.served setting peer answer server).clients c).toClient =
      (s.clients c).toClient)
    (howed : owed (s.served setting peer answer server) c = 0) :
    Counted typed (s.served setting peer answer server) c := by
  rcases hcounted with ⟨pieces, hmade, hle⟩
  refine ⟨pieces, ?_, ?_⟩
  · unfold State.answered
    rw [served_received, htoClient]
    exact hmade
  · rw [htoServer, howed]
    omega

theorem Counted.server {typed c peer : ℕ} {answer : Answer}
    {server : ChatServer.State} (hcounted : Counted typed s c)
    (hwired : Wired setting s)
    (hallows : PeerAllows s.server (s.clients peer) answer)
    (hstep : ChatServer.step setting s.server answer = some server) :
    Counted typed (s.served setting peer answer server) c := by
  by_cases htaken : c = peer ∧ ∃ len, answer = .received len
  · -- the bytes that were taken pay for the answer
    rcases htaken with ⟨rfl, len, rfl⟩
    have hpos : 0 < len := received_pos hstep
    have hlen : len ≤ (s.clients c).toServer.length := hallows.2
    have howed := owed_le (s.served setting c (.received len) server) c
    have htoServer : ((s.served setting c (.received len) server).clients
        c).toServer = (s.clients c).toServer.drop len := by
      simp [State.served_clients, Client.answered]
    have htoClient : ((s.served setting c (.received len) server).clients
        c).toClient = (s.clients c).toClient := by
      simp [State.served_clients, Client.answered]
    rcases hcounted with ⟨pieces, hmade, hle⟩
    refine ⟨pieces, ?_, ?_⟩
    · unfold State.answered
      rw [served_received, htoClient]
      exact hmade
    · rw [htoServer, List.length_drop]
      omega
  · have howed : owed (s.served setting peer answer server) c = 0 := by
      refine if_neg ?_
      rintro ⟨hsending, hlink⟩
      exact htaken (answer_of_received hwired hallows hstep hsending hlink)
    rcases served_toServer setting s peer answer server c with
      htoServer | ⟨len, rfl, rfl, _⟩
    · rcases served_toClient setting s peer answer server c with
        htoClient | ⟨count, rfl, rfl, happend⟩
      · exact hcounted.frame htoServer htoClient howed
      · -- the answer that was owed
        have hpaid : owed s c = 1 := by
          cases ChatServer.step_transition hstep with
          | sent hpc => exact if_pos ⟨hpc, hallows.1⟩
          | recvStop _ _ hstop => simp at hstop
        rcases hcounted with ⟨pieces, hmade, hle⟩
        refine ⟨pieces ++ [message.toList.take count], ?_, ?_⟩
        · unfold State.answered
          rw [served_received, happend, ← List.append_assoc]
          exact hmade.append hallows.2
        · rw [htoServer, howed, List.length_append, List.length_singleton]
          omega
    · exact absurd ⟨rfl, len, rfl⟩ htaken

theorem Counted.step {typed c : ℕ} {label : Label} (hcounted : Counted typed s c)
    (hwired : Wired setting s) (hstep : step setting s label = some t) :
    Counted (typed + sentBytes c label) t c := by
  cases step_move hstep with
  | client _ hmove => exact hcounted.client hmove
  | server _ hallows hserver => exact hcounted.server hwired hallows hserver
  | brokenPipe _ =>
      rcases hcounted with ⟨pieces, hmade, hle⟩
      have howed : owed (State.dropClosed { s with killed := true }
          setting.listenfd ∅) c = 0 := by
        refine if_neg ?_
        rintro ⟨_, hlink⟩
        exact Finset.notMem_empty _
          ((Client.dropClosed_link_accepted _ _ _).mp hlink).2
      refine ⟨pieces, ?_, ?_⟩
      · simpa [State.answered, State.dropClosed] using hmade
      · rw [howed]
        simp only [State.dropClosed, Client.dropClosed_toServer]
        omega

theorem run_counted {labels : List Label} {typed c : ℕ} (hwired : Wired setting s)
    (hcounted : Counted typed s c)
    (hrun : run (step setting) s labels = some t) :
    Counted (typed + typedBytes c labels) t c := by
  induction labels generalizing s typed with
  | nil =>
      rw [run_nil, Option.some.injEq] at hrun
      rw [← hrun]
      exact hcounted
  | cons label labels ih =>
      rcases run_cons_eq_some.mp hrun with ⟨next, hnext, hrest⟩
      have hmore := ih (hwired.step hnext) (hcounted.step hwired hnext) hrest
      rwa [typedBytes_cons, ← Nat.add_assoc]

/-! ## Running over the receive buffer -/

/-- A client that prints a buffer without a zero byte has received enough to
fill it. -/
def Filled (s : State) (c : ℕ) : Prop :=
  (s.clients c).pc = .overrun → recvBufSize ≤ (s.clients c).received.length

theorem Filled.step {c : ℕ} {label : Label} (hfilled : Filled s c)
    (hstep : step setting s label = some t) : Filled t c := by
  cases step_move hstep with
  | @client client action value _ hmove =>
      intro hpc
      rw [State.setClient_clients] at hpc ⊢
      split_ifs at hpc ⊢ with hc
      · cases hmove with
        | recv _ _ _ hcount =>
            dsimp only at hpc
            split_ifs at hpc with hfull
            rw [List.length_append, List.length_take]
            omega
        | connect _ => cases hpc
        | sendLine _ _ _ => cases hpc
        | recvClosed _ _ _ => cases hpc
        | recvFails _ => cases hpc
        | exit _ _ => cases hpc
      · exact hfilled hpc
  | server _ _ _ =>
      intro hpc
      rw [served_pc] at hpc
      rw [served_received]
      exact hfilled hpc
  | brokenPipe _ =>
      simpa [Filled, State.dropClosed] using hfilled

/-- Whatever the order of the steps, what a client has been sent is made of
pieces of the server's message, one at most for each byte of its lines.  So
the print of `recv_buf` runs over the end only after eight bytes at least. -/
theorem answered_at_most_once {labels : List Label}
    (hrun : run (step setting) (initial setting) labels = some s) (c : ℕ) :
    (∃ pieces, MadeOf (s.answered c) pieces ∧
      pieces.length + (s.clients c).toServer.length ≤ typedBytes c labels) ∧
    ((s.clients c).pc = .overrun → 8 ≤ typedBytes c labels) := by
  have hstart : Counted 0 (initial setting) c :=
    ⟨[], ⟨rfl, by simp⟩, by simp [owed, initial, start, ChatServer.initial]⟩
  have hcounted := run_counted (wired_initial setting) hstart hrun
  rw [Nat.zero_add] at hcounted
  rcases hcounted with ⟨pieces, hmade, hle⟩
  refine ⟨⟨pieces, hmade, by omega⟩, ?_⟩
  intro hpc
  have hfilled : Filled s c :=
    run_invariant (P := fun u => Filled u c)
      (fun _ _ _ hfilled hstep => hfilled.step hstep)
      (by simp [Filled, initial, start]) hrun
  have hreceived : recvBufSize ≤ (s.answered c).length := by
    have hfill := hfilled hpc
    unfold State.answered
    rw [List.length_append]
    omega
  have hlength := hmade.length_le
  unfold recvBufSize at hreceived
  omega

theorem answered_at_most_once_hi :
    ∃ s, run (step ⟨0, 1024⟩) (initial ⟨0, 1024⟩)
        [.client 7 .connect, .client 7 (.sendLine ['h', 'i'] 2),
          .server 7 (.selected {0}), .server 7 .tau, .server 7 (.accepted 1),
          .server 7 .acceptWouldBlock, .server 7 .tau,
          .server 7 (.selected {1}), .server 7 .tau, .server 7 .tau,
          .server 7 (.received 1), .server 7 (.sent 131),
          .server 7 (.received 1), .server 7 (.sent 100),
          .client 7 (.recv 200)] = some s ∧
      (∃ pieces, MadeOf (s.answered 7) pieces ∧
        pieces.length + (s.clients 7).toServer.length ≤ 2) ∧
      ((s.clients 7).pc = .overrun → 8 ≤ 2) :=
  exists_run_and (by decide +kernel) fun _ hrun =>
    answered_at_most_once hrun 7

end Miscellaneous.ChatClients
