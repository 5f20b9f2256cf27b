import Miscellaneous.ChatClientsRuns
import Mathlib.Tactic

/-!
# What a waiting client of the chat server can count on

If no client sends an empty line, then none waits for nothing: it can go on,
its bytes lie where the server looks for them, or the server is at its answer.
After an empty line a client may wait for ever.
-/

namespace Miscellaneous.ChatClients

open GuardedRuns
open ChatServer (Setting Answer openDescriptors message)

variable {setting : Setting} {s t : State}

/-! ## Nobody waits for nothing -/

/-- The server is at its answer to the client, or about to close its
connection. -/
def AtAnswer (s : State) (c : ℕ) : Prop :=
  (s.clients c).link = .accepted s.server.i ∧
    (s.server.pc = .sending ∨
      s.server.pc = .closing ∧ s.server.closeConn = true)

/-- What unblocks a waiting client, now or later. -/
def Attended (s : State) (c : ℕ) : Prop :=
  (s.clients c).link = .closed ∨ (s.clients c).toServer ≠ [] ∨
    (s.clients c).toClient ≠ [] ∨ AtAnswer s c

def EmptyLine (label : Label) : Prop :=
  ∃ client count, label = .client client (.sendLine [] count)

theorem Attended.server {c peer : ℕ} {answer : Answer}
    {server : ChatServer.State} (hattended : Attended s c)
    (hwired : Wired setting s)
    (hallows : PeerAllows s.server (s.clients peer) answer)
    (hstep : ChatServer.step setting s.server answer = some server) :
    Attended (s.served setting peer answer server) c := by
  rcases hattended with hclosed | htoServer | htoClient | ⟨hlink, hpc⟩
  · exact Or.inl (served_link_of_closed hallows hclosed)
  · rcases served_toServer setting s peer answer server c with
      hsame | ⟨len, rfl, rfl, hdrop⟩
    · refine Or.inr (Or.inl ?_)
      rwa [hsame]
    · -- the server has taken some of it and is at the answer
      rcases served_link_of_accepted setting server hallows hallows.1 with
        ⟨_, hlink⟩ | hclosed
      · cases ChatServer.step_transition hstep with
        | received _ =>
            exact Or.inr (Or.inr (Or.inr ⟨hlink, Or.inl rfl⟩))
        | recvStop _ _ hstop => simp at hstop
      · exact Or.inl hclosed
  · refine Or.inr (Or.inr (Or.inl ?_))
    rcases served_toClient setting s peer answer server c with
      hsame | ⟨count, _, _, happend⟩
    · rwa [hsame]
    · rw [happend]
      simp [htoClient]
  · rcases hpc with hsending | ⟨hclosing, hclose⟩
    · rcases sent_or_closing_of_step hstep hsending with
        ⟨count, rfl⟩ | ⟨hclosing, hclose, hi⟩
      · obtain rfl : c = peer := hwired.unique hlink hallows.1
        refine Or.inr (Or.inr (Or.inl ?_))
        simp [State.served_clients, Client.answered,
          take_message_ne_nil hallows.2]
      · rcases served_link_of_accepted setting server hallows hlink with
          ⟨_, hlink'⟩ | hclosed
        · rw [← hi] at hlink'
          exact Or.inr (Or.inr (Or.inr
            ⟨hlink', Or.inr ⟨hclosing, hclose⟩⟩))
        · exact Or.inl hclosed
    · rcases served_link_of_accepted setting server hallows hlink with
        ⟨hopen, _⟩ | hclosed
      · exact absurd hopen (not_open_of_closing hstep hclosing hclose)
      · exact Or.inl hclosed

theorem Attended.client {c client : ℕ} {action : Action} {value : Client}
    (hattended : (s.clients c).pc = .waiting → Attended s c)
    (hline : ¬EmptyLine (.client client action))
    (hmove : (s.clients client).Move action value)
    (hwait : ((s.setClient client value).clients c).pc = .waiting) :
    Attended (s.setClient client value) c := by
  by_cases hc : c = client
  · subst hc
    rw [State.setClient_clients, if_pos rfl] at hwait
    cases hmove with
    | @sendLine line count _ hcount hempty =>
        by_cases hclosed : (s.clients c).link = .closed
        · left
          simp [State.setClient_clients, hclosed]
        · have hpos : count ≠ 0 := by
            intro hzero
            exact hline ⟨c, count, by rw [hempty hzero]⟩
          have hsent : line.take count ≠ [] := by
            intro hnil
            rcases List.take_eq_nil_iff.mp hnil with hzero | rfl
            · exact hpos hzero
            · exact hpos (by simpa using hcount)
          refine Or.inr (Or.inl ?_)
          simp [State.setClient_clients, hclosed, hsent]
    | recv _ _ _ _ =>
        dsimp only at hwait
        split_ifs at hwait
    | connect _ => cases hwait
    | recvClosed _ _ _ => cases hwait
    | recvFails _ => cases hwait
    | exit _ _ => cases hwait
  · have hsame : (s.setClient client value).clients c = s.clients c := by
      rw [State.setClient_clients, if_neg hc]
    rw [hsame] at hwait
    unfold Attended AtAnswer at hattended ⊢
    rw [hsame]
    exact hattended hwait

theorem Attended.step {label : Label} {c : ℕ} (hjoined : Joined setting s)
    (hattended : (s.clients c).pc = .waiting → Attended s c)
    (hline : ¬EmptyLine label) (hstep : step setting s label = some t)
    (hwait : (t.clients c).pc = .waiting) : Attended t c := by
  cases step_move hstep with
  | client _ hmove => exact Attended.client hattended hline hmove hwait
  | server _ hallows hserver =>
      rw [served_pc] at hwait
      exact (hattended hwait).server hjoined.wired hallows hserver
  | brokenPipe _ =>
      simp only [State.dropClosed, Client.dropClosed_pc] at hwait
      left
      cases hlink : (s.clients c).link with
      | none => simpa [hwait] using hjoined.linked hlink
      | _ => simp [State.dropClosed, Client.dropClosed, hlink]

theorem run_attended {labels : List Label}
    (hlines : ∀ label ∈ labels, ¬EmptyLine label)
    (hrun : run (step setting) (initial setting) labels = some s) (c : ℕ)
    (hwait : (s.clients c).pc = .waiting) : Attended s c := by
  have hinv : Joined setting s ∧
      ((s.clients c).pc = .waiting → Attended s c) := by
    refine run_invariant_of_admitted
      (P := fun s => Joined setting s ∧
        ((s.clients c).pc = .waiting → Attended s c)) ?_ hlines
      ⟨joined_initial setting, by simp [initial, start]⟩ hrun
    intro s label t hline hinv hstep
    exact ⟨hinv.1.step hstep,
      Attended.step hinv.1 hinv.2 hline hstep⟩
  exact hinv.2 hwait

/-- As long as no client sends an empty line and all descriptors fit into the
sets, a client that waits in `recv` can go on, or its bytes wait at a descriptor
that the server's next `select` looks at, or the server is between the `recv`
that took them and its answer or the end of the connection. -/
theorem waits_for_something {labels : List Label}
    (hlisten : setting.listenfd < ChatServer.fdSetSize)
    (hlimit : setting.fdLimit ≤ ChatServer.fdSetSize)
    (hlines : ∀ label ∈ labels, ¬EmptyLine label)
    (hrun : run (step setting) (initial setting) labels = some s) (c : ℕ)
    (hwait : (s.clients c).pc = .waiting) :
    s.server.pc ≠ .undefined ∧
      ((∃ count, ((s.clients c).step (.recv count)).isSome) ∨
        ((s.clients c).step .recvClosed).isSome ∨
        (s.clients c).toServer ≠ [] ∧ Watched setting s c ∨
        AtAnswer s c) := by
  refine ⟨run_defined hlisten hlimit hrun, ?_⟩
  have hattended : Attended s c := run_attended hlines hrun c hwait
  have hjoined : Joined setting s := run_joined hrun
  by_cases htoClient : (s.clients c).toClient = []
  · by_cases hclosed : (s.clients c).link = .closed
    · refine Or.inr (Or.inl ?_)
      simp [Client.step, Client.recvClosed, hwait, hclosed, htoClient]
    · rcases hattended with hlink | htoServer | hnot | hanswer
      · exact absurd hlink hclosed
      · exact Or.inr (Or.inr (Or.inl
          ⟨htoServer, hjoined.watched hwait hclosed⟩))
      · exact absurd htoClient hnot
      · exact Or.inr (Or.inr (Or.inr hanswer))
  · have hpos : 0 < (s.clients c).toClient.length :=
      List.length_pos_iff.mpr htoClient
    refine Or.inl ⟨1, ?_⟩
    simp [Client.step, Client.recv, hwait, recvBufSize, Nat.succ_le_of_lt hpos]

theorem waits_for_something_hi :
    ∃ s, run (step ⟨0, 1024⟩) (initial ⟨0, 1024⟩)
        [.client 7 .connect, .client 7 (.sendLine ['h', 'i'] 2),
          .server 7 (.selected {0}), .server 7 .tau, .server 7 (.accepted 1)] =
          some s ∧
      s.server.pc ≠ .undefined ∧
      ((∃ count, ((s.clients 7).step (.recv count)).isSome) ∨
        ((s.clients 7).step .recvClosed).isSome ∨
        (s.clients 7).toServer ≠ [] ∧ Watched ⟨0, 1024⟩ s 7 ∨
        AtAnswer s 7) := by
  have hpc : (run (step ⟨0, 1024⟩) (initial ⟨0, 1024⟩)
      [.client 7 .connect, .client 7 (.sendLine ['h', 'i'] 2),
        .server 7 (.selected {0}), .server 7 .tau,
        .server 7 (.accepted 1)]).map (fun s => (s.clients 7).pc) =
      some .waiting := by decide +kernel
  rcases Option.map_eq_some_iff.mp hpc with ⟨s, hrun, hwait⟩
  exact ⟨s, hrun, waits_for_something (by decide) (by decide)
    (by simp [EmptyLine]) hrun 7 hwait⟩

/-! ## After an empty line -/

/-- Nothing is on the way between the client and the server, and the server
owes no answer. -/
structure Quiet (s : State) (c : ℕ) : Prop where
  toServer : (s.clients c).toServer = []
  toClient : (s.clients c).toClient = []
  noAnswer : ¬(s.server.pc = .sending ∧
    (s.clients c).link = .accepted s.server.i)

structure Hung (s : State) (c : ℕ) : Prop extends Quiet s c where
  waiting : (s.clients c).pc = .waiting

/-- The connection of a client has been closed. -/
structure Over (s : State) (c : ℕ) : Prop where
  closed : (s.clients c).link = .closed
  connected : (s.clients c).pc ≠ .connecting

theorem Hung.client {c client : ℕ} {action : Action} {value : Client}
    (hhung : Hung s c) (hmove : (s.clients client).Move action value)
    (hfails : Label.client client action ≠ .client c .recvFails) :
    Hung (s.setClient client value) c ∨
      Over (s.setClient client value) c := by
  by_cases hc : c = client
  · subst hc
    have hwait : (s.clients c).pc = .waiting := hhung.waiting
    cases hmove with
    | connect hpc => simp [hwait] at hpc
    | sendLine hpc _ _ => simp [hwait] at hpc
    | recv _ hpos _ hcount =>
        rw [hhung.toClient, List.length_nil] at hcount
        omega
    | recvClosed _ hlink _ =>
        right
        constructor
        · simp [State.setClient_clients, hlink]
        · simp [State.setClient_clients]
    | recvFails _ => exact absurd rfl hfails
    | exit _ hpc => simp [hwait] at hpc
  · have hsame : (s.setClient client value).clients c = s.clients c := by
      rw [State.setClient_clients, if_neg hc]
    refine Or.inl ⟨⟨?_, ?_, ?_⟩, ?_⟩
    · rw [hsame]
      exact hhung.toServer
    · rw [hsame]
      exact hhung.toClient
    · rw [hsame]
      exact hhung.noAnswer
    · rw [hsame]
      exact hhung.waiting

theorem Hung.server {c peer : ℕ} {answer : Answer}
    {server : ChatServer.State} (hhung : Hung s c) (hwired : Wired setting s)
    (hallows : PeerAllows s.server (s.clients peer) answer)
    (hstep : ChatServer.step setting s.server answer = some server) :
    Hung (s.served setting peer answer server) c where
  waiting := by rw [served_pc, hhung.waiting]
  toServer := by
    rcases served_toServer setting s peer answer server c with
      hsame | ⟨len, _, _, hdrop⟩
    · rw [hsame, hhung.toServer]
    · rw [hdrop, hhung.toServer, List.drop_nil]
  toClient := by
    rcases served_toClient setting s peer answer server c with
      hsame | ⟨count, rfl, rfl, _⟩
    · rw [hsame, hhung.toClient]
    · cases ChatServer.step_transition hstep with
      | sent hpc => exact absurd ⟨hpc, hallows.1⟩ hhung.noAnswer
      | recvStop _ _ hstop => simp at hstop
  noAnswer := by
    rintro ⟨hsending, hlink⟩
    rcases answer_of_received hwired hallows hstep hsending hlink with
      ⟨rfl, len, rfl⟩
    have hlen : len ≤ 0 := by
      have hle := hallows.2
      rwa [hhung.toServer] at hle
    have hpos := received_pos hstep
    omega

theorem Hung.step {c : ℕ} {label : Label} (hhung : Hung s c)
    (hjoined : Joined setting s) (hfails : label ≠ .client c .recvFails)
    (hstep : step setting s label = some t) :
    Hung t c ∨ Over t c := by
  cases step_move hstep with
  | client _ hmove => exact hhung.client hmove hfails
  | server _ hallows hserver =>
      exact Or.inl (hhung.server hjoined.wired hallows hserver)
  | brokenPipe _ =>
      refine Or.inr ⟨?_, by simp [State.dropClosed, hhung.waiting]⟩
      cases hlink : (s.clients c).link with
      | none => simpa [hhung.waiting] using hjoined.linked hlink
      | _ => simp [State.dropClosed, Client.dropClosed, hlink]

/-- A closed connection is never opened again. -/
theorem Over.step {c : ℕ} {label : Label} (hover : Over s c)
    (hstep : step setting s label = some t) : Over t c := by
  cases step_move hstep with
  | @client client action value _ hmove =>
      by_cases hc : c = client
      · subst hc
        rcases hmove.link with hsame | ⟨hpc, _⟩
        · refine ⟨by simp [State.setClient_clients, hsame, hover.closed], ?_⟩
          rw [State.setClient_clients, if_pos rfl]
          exact hmove.pc
        · exact absurd hpc hover.connected
      · have hsame : (s.setClient client value).clients c = s.clients c := by
          rw [State.setClient_clients, if_neg hc]
        exact ⟨by rw [hsame, hover.closed], by rw [hsame]; exact hover.connected⟩
  | server _ hallows _ =>
      exact ⟨served_link_of_closed hallows hover.closed, by
        rw [served_pc]
        exact hover.connected⟩
  | brokenPipe _ =>
      exact ⟨Client.dropClosed_link_closed _ _ _ hover.closed, by
        simpa [State.dropClosed] using hover.connected⟩

/-- An empty line is sent as no bytes.  If nothing is on the way at that time,
the client waits until its connection is closed or its `recv` fails, whatever
the server and the other clients do. -/
theorem empty_line_hangs {before after : List Label} {c : ℕ} {final : State}
    (hbefore : run (step setting) (initial setting) before = some s)
    (hquiet : Quiet s c)
    (hline : step setting s (.client c (.sendLine [] 0)) = some t)
    (hafter : run (step setting) t after = some final)
    (hfails : .client c .recvFails ∉ after) :
    Hung final c ∨ (final.clients c).link = .closed := by
  have hjoined : Joined setting s := run_joined hbefore
  have hhung : Hung t c := by
    cases step_move hline with
    | client _ hmove =>
        cases hmove with
        | sendLine _ _ _ =>
            refine ⟨⟨?_, ?_, ?_⟩, ?_⟩
            · simp [State.setClient_clients, hquiet.toServer]
            · simp [State.setClient_clients, hquiet.toClient]
            · simpa [State.setClient_clients] using hquiet.noAnswer
            · simp [State.setClient_clients]
        | exit haction _ => simp at haction
  have hinv : Joined setting final ∧ (Hung final c ∨ Over final c) := by
    have hadmitted : ∀ label ∈ after, label ≠ .client c .recvFails :=
      fun label hlabel heq => hfails (by rwa [heq] at hlabel)
    refine run_invariant_of_admitted
      (P := fun u => Joined setting u ∧ (Hung u c ∨ Over u c))
      ?_ hadmitted ⟨hjoined.step hline, Or.inl hhung⟩ hafter
    rintro u label next hlabel ⟨hjoined, hhung | hover⟩ hstep
    · exact ⟨hjoined.step hstep, hhung.step hjoined hlabel hstep⟩
    · exact ⟨hjoined.step hstep, Or.inr (hover.step hstep)⟩
  exact hinv.2.imp_right Over.closed

theorem empty_line_hangs_accepted :
    ∃ s t final,
      run (step ⟨0, 1024⟩) (initial ⟨0, 1024⟩) [.client 7 .connect] = some s ∧
      step ⟨0, 1024⟩ s (.client 7 (.sendLine [] 0)) = some t ∧
      run (step ⟨0, 1024⟩) t
        [.server 7 (.selected {0}), .server 7 .tau, .server 7 (.accepted 1)] =
          some final ∧
      (Hung final 7 ∨ (final.clients 7).link = .closed) := by
  have hconnect : ∃ s,
      run (step ⟨0, 1024⟩) (initial ⟨0, 1024⟩) [.client 7 .connect] = some s ∧
      Quiet s 7 ∧
      ∃ t, step ⟨0, 1024⟩ s (.client 7 (.sendLine [] 0)) = some t ∧
        (run (step ⟨0, 1024⟩) t [.server 7 (.selected {0}), .server 7 .tau,
          .server 7 (.accepted 1)]).isSome :=
    ⟨_, rfl, ⟨rfl, rfl, fun h => nomatch h.1⟩, _, rfl, rfl⟩
  rcases hconnect with ⟨s, hbefore, hquiet, t, hline, hsome⟩
  rcases Option.isSome_iff_exists.mp hsome with ⟨final, hafter⟩
  exact ⟨s, t, final, hbefore, hline, hafter,
    empty_line_hangs hbefore hquiet hline hafter (by simp)⟩

end Miscellaneous.ChatClients
