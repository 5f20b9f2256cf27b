import Miscellaneous.UpperEchoClients
import Mathlib.Tactic

/-!
# Every client gets its answers

When a `read` returns all that is there, client and server take turns: a line
is on its way there, in the buffer of the server or on its way back, and never
anything else.  No client is then left waiting, none goes before its last
answer, and each has at its end written out the whole of its input,
upper-cased.
-/

namespace Miscellaneous.UpperEcho

open GuardedRuns IterativeServers

/-- The `read` returns everything that is in the stream. -/
def ReadsWhole (s : State) : Action → Prop
  | .serverReceive n => n = s.upstream.length
  | .clientReceive n => n = s.downstream.length
  | .clientFgets => True
  | .clientSend => True
  | .clientDisplay => True
  | .serverSend => True
  | .serverEof => True

instance (s : State) : ∀ action, Decidable (ReadsWhole s action)
  | .serverReceive _ => inferInstanceAs (Decidable (_ = _))
  | .clientReceive _ => inferInstanceAs (Decidable (_ = _))
  | .clientFgets => isTrue trivial
  | .clientSend => isTrue trivial
  | .clientDisplay => isTrue trivial
  | .serverSend => isTrue trivial
  | .serverEof => isTrue trivial

/-- Whose turn it is. -/
inductive Turn : State → Prop where
  | fgets {clientBuf stdin stdout serverBuf sent : List UInt8} :
      Turn ⟨.fgets, clientBuf, stdin, stdout, .receive, serverBuf, [], [],
        sent⟩
  | send {clientBuf stdin stdout serverBuf sent : List UInt8}
      (hpos : 0 < CString.strlen clientBuf)
      (hfits : CString.strlen clientBuf ≤ maxLine) :
      Turn ⟨.send, clientBuf, stdin, stdout, .receive, serverBuf, [], [], sent⟩
  | sent {clientBuf stdin stdout serverBuf upstream sent : List UInt8}
      (hsent : sent ≠ []) (hpos : 0 < upstream.length)
      (hfits : upstream.length ≤ maxLine) :
      Turn ⟨.receive, clientBuf, stdin, stdout, .receive, serverBuf, upstream,
        [], sent⟩
  | received {clientBuf stdin stdout serverBuf sent : List UInt8} {n : ℕ}
      (hsent : sent ≠ []) (hpos : 0 < n) :
      Turn ⟨.receive, clientBuf, stdin, stdout, .send n, serverBuf, [], [],
        sent⟩
  | echoed {clientBuf stdin stdout serverBuf downstream sent : List UInt8}
      (hsent : sent ≠ []) (hpos : 0 < downstream.length)
      (hfits : downstream.length ≤ maxLine) :
      Turn ⟨.receive, clientBuf, stdin, stdout, .receive, serverBuf, [],
        downstream, sent⟩
  | display {clientBuf stdin stdout serverBuf sent : List UInt8} {n : ℕ}
      (hsent : sent ≠ []) :
      Turn ⟨.display n, clientBuf, stdin, stdout, .receive, serverBuf, [], [],
        sent⟩
  | exited {clientBuf stdout serverBuf sent : List UInt8}
      {server : ServerPoint} (hserver : server = .receive ∨ server = .closed) :
      Turn ⟨.exited, clientBuf, [], stdout, server, serverBuf, [], [], sent⟩

variable {s t : State} {action : Action} {input buf : List UInt8}

theorem Turn.load (hturn : Turn s) : Turn { s with serverBuf := buf } := by
  cases hturn with
  | fgets => exact .fgets
  | send hpos hfits => exact .send hpos hfits
  | sent hsent hpos hfits => exact .sent hsent hpos hfits
  | received hsent hpos => exact .received hsent hpos
  | echoed hsent hpos hfits => exact .echoed hsent hpos hfits
  | display hsent => exact .display hsent
  | exited hserver => exact .exited hserver

theorem fgets_ne_nil {size : ℕ} {stream : List UInt8} (hsize : 0 < size)
    (hstream : stream ≠ []) : (CString.fgets size stream).1 ≠ [] := by
  cases size with
  | zero => omega
  | succ size =>
      cases stream with
      | nil => exact absurd rfl hstream
      | cons byte stream =>
          unfold CString.fgets
          split_ifs <;> simp

@[simp] theorem not_readable_nil (n : ℕ) : ¬Readable [] n := by
  rintro ⟨hpos, _, havailable⟩
  rw [List.length_nil] at havailable
  omega

theorem length_echo {n : ℕ} (hbuf : buf.length = maxLine) (hn : n ≤ maxLine) :
    (((buf.take n).map toupper ++ buf.drop n).take n).length = n := by
  rw [List.length_take, List.length_append, List.length_map,
    ← List.length_append, List.take_append_drop, hbuf]
  omega

/-- The client sends the line that it has read. -/
theorem Turn.step_fgets {clientBuf stdin stdout serverBuf sent : List UInt8}
    (hinput : (0 : UInt8) ∉ stdin) :
    Turn (stepFgets ⟨.fgets, clientBuf, stdin, stdout, .receive, serverBuf, [],
      [], sent⟩) := by
  unfold stepFgets
  split_ifs with hstdin
  · obtain rfl : stdin = [] := hstdin
    exact .exited (Or.inl rfl)
  · have hline : (0 : UInt8) ∉ (CString.fgets (maxLine - 1) stdin).1 := by
      intro hmem
      apply hinput
      rw [← CString.fgets_append (maxLine - 1) stdin]
      exact List.mem_append_left _ hmem
    have hlength := CString.length_fgets_le (maxLine - 1) stdin
    have hstrlen : CString.strlen (CString.store clientBuf
        ((CString.fgets (maxLine - 1) stdin).1 ++ [0])) =
          (CString.fgets (maxLine - 1) stdin).1.length := by
      rw [CString.strlen, CString.text_store_nul _ hline]
    refine .send ?_ ?_
    · rw [hstrlen]
      exact List.length_pos_of_ne_nil (fgets_ne_nil (by decide) hstdin)
    · rw [hstrlen]
      omega

/-! ## The next turn -/

/-- The one next state when both sides take turns. -/
def State.next (s : State) : State :=
  match s.client, s.server with
  | .fgets, _ => stepFgets s
  | .send, _ => stepClientSend s
  | .receive, .send n => stepServerSend s n
  | .receive, _ =>
      if s.downstream = [] then
        { s with
          server := .send s.upstream.length
          serverBuf := CString.store s.serverBuf s.upstream
          upstream := [] }
      else
        { s with
          client := .display s.downstream.length
          clientBuf := CString.store s.clientBuf s.downstream
          downstream := [] }
  | .display n, _ => stepClientDisplay s n
  | .exited, _ => { s with server := .closed }

def State.Ended (s : State) : Prop :=
  s.client = .exited ∧ s.server = .closed

theorem Turn.next_of_step (hturn : Turn s) (hwhole : ReadsWhole s action)
    (hstep : step s action = some t) : s.next = t ∧ ¬s.Ended := by
  cases hturn with
  | fgets =>
      cases action <;> simp [step, stepServerReceive] at hstep
      exact ⟨hstep, by simp [State.Ended]⟩
  | send hpos hfits =>
      cases action <;> simp [step, stepServerReceive] at hstep
      exact ⟨hstep, by simp [State.Ended]⟩
  | sent hsent hpos hfits =>
      cases action <;>
        simp [step, stepServerReceive, stepClientReceive] at hstep
      rcases hstep with ⟨_, rfl⟩
      simp only [ReadsWhole] at hwhole
      subst hwhole
      simp [State.next, State.Ended]
  | received hsent hpos =>
      cases action <;> simp [step, stepClientReceive] at hstep
      exact ⟨hstep, by simp [State.Ended]⟩
  | echoed hsent hpos hfits =>
      have hdownstream := List.ne_nil_of_length_pos hpos
      cases action <;>
        simp [step, stepServerReceive, stepClientReceive] at hstep
      rcases hstep with ⟨_, rfl⟩
      simp only [ReadsWhole] at hwhole
      subst hwhole
      simp [State.next, State.Ended, hdownstream]
  | display hsent =>
      cases action <;> simp [step, stepServerReceive] at hstep
      exact ⟨hstep, by simp [State.Ended]⟩
  | exited hserver =>
      rcases hserver with rfl | rfl <;> cases action <;>
        simp [step, stepServerReceive] at hstep
      exact ⟨hstep, by simp [State.Ended]⟩

theorem Turn.next (hturn : Turn s) (hs : Invariant input s)
    (hinput : (0 : UInt8) ∉ input) : Turn s.next := by
  cases hturn with
  | fgets =>
      refine Turn.step_fgets fun hmem => hinput ?_
      rw [← hs.taken]
      exact List.mem_append_right _ hmem
  | send hpos hfits =>
      simp only [State.next, stepClientSend, List.nil_append,
        CString.take_strlen]
      refine .sent ?_ hpos hfits
      simp only [ne_eq, List.append_eq_nil_iff, not_and]
      exact fun _ => List.ne_nil_of_length_pos hpos
  | sent hsent hpos hfits =>
      simp only [State.next, if_true]
      exact .received hsent hpos
  | @received clientBuf stdin stdout serverBuf sent n hsent hpos =>
      have hn := hs.serverCount n rfl
      have hecho := length_echo hs.serverBuf hn
      simp only [State.next, stepServerSend, List.nil_append]
      refine .echoed hsent ?_ ?_ <;> rw [hecho]
      · exact hpos
      · exact hn
  | echoed hsent hpos hfits =>
      simp only [State.next, List.ne_nil_of_length_pos hpos, if_false]
      exact .display hsent
  | display hsent => exact .fgets
  | exited hserver => exact .exited (Or.inr rfl)

theorem Turn.step (hs : Invariant input s) (hinput : (0 : UInt8) ∉ input)
    (hturn : Turn s) (hwhole : ReadsWhole s action)
    (hstep : UpperEcho.step s action = some t) : Turn t :=
  (hturn.next_of_step hwhole hstep).1 ▸ hturn.next hs hinput

/-- The server never writes to a client that has gone. -/
theorem Turn.client_of_send (hturn : Turn s) {n : ℕ}
    (hserver : s.server = .send n) : s.client = .receive := by
  cases hturn with
  | fgets => cases hserver
  | send hpos hfits => cases hserver
  | sent hsent hpos hfits => cases hserver
  | received hsent hpos => rfl
  | echoed hsent hpos hfits => cases hserver
  | display hsent => cases hserver
  | exited hended =>
      rcases hended with rfl | rfl <;> cases hserver

/-- At its end a client has written out all of its input. -/
theorem Turn.stdout_eq (hturn : Turn s) (hs : Invariant input s)
    (hexited : s.client = .exited) : s.stdout = input.map toupper := by
  cases hturn with
  | fgets => cases hexited
  | send hpos hfits => cases hexited
  | sent hsent hpos hfits => cases hexited
  | received hsent hpos => cases hexited
  | echoed hsent hpos hfits => cases hexited
  | display hsent => cases hexited
  | exited hserver =>
      have htaken := hs.taken
      have hflight := hs.flight
      rcases hserver with rfl | rfl <;>
      · simp only [ClientPoint.pending, ClientPoint.held, ServerPoint.held,
          List.append_nil, List.map_nil] at htaken hflight
        rw [← htaken]
        exact hflight

/-! ## Progress -/

theorem Turn.progress (hturn : Turn s) (hnot : ¬s.Ended) :
    ∃ action, ReadsWhole s action ∧ (UpperEcho.step s action).isSome ∧
      (s.server = .closed → action.isServer = false) := by
  cases hturn with
  | fgets => exact ⟨.clientFgets, trivial, by simp [UpperEcho.step], by simp⟩
  | send hpos hfits =>
      exact ⟨.clientSend, trivial, by simp [UpperEcho.step], by simp⟩
  | @sent clientBuf stdin stdout serverBuf upstream sent hsent hpos hfits =>
      have hreadable : Readable upstream upstream.length :=
        ⟨hpos, hfits, le_refl _⟩
      exact ⟨.serverReceive upstream.length, rfl,
        by simp [UpperEcho.step, stepServerReceive, hreadable], by simp⟩
  | received hsent hpos =>
      exact ⟨.serverSend, trivial, by simp [UpperEcho.step], by simp⟩
  | @echoed clientBuf stdin stdout serverBuf downstream sent hsent hpos hfits =>
      have hreadable : Readable downstream downstream.length :=
        ⟨hpos, hfits, le_refl _⟩
      exact ⟨.clientReceive downstream.length, rfl,
        by simp [UpperEcho.step, stepClientReceive, hreadable], by simp⟩
  | display hsent =>
      exact ⟨.clientDisplay, trivial, by simp [UpperEcho.step], by simp⟩
  | exited hserver =>
      rcases hserver with rfl | rfl
      · exact ⟨.serverEof, trivial, by simp [UpperEcho.step], by simp⟩
      · exact absurd ⟨rfl, rfl⟩ hnot

/-! ## How long it takes -/

/-- The calls up to the next line, or up to the end when there is none. -/
def turnRank (s : State) : ℕ :=
  match s.client with
  | .fgets => 1
  | .send => 6
  | .receive =>
      if s.upstream ≠ [] then 5 else if s.downstream = [] then 4 else 3
  | .display _ => 2
  | .exited => 0

/-- The calls that client and server have still before them at most, when every
line is a single byte. -/
def rank (s : State) : ℕ :=
  6 * s.stdin.length + turnRank s + (if s.server = .closed then 0 else 1)

theorem rank_le (hturn : Turn s) (hs : Invariant input s) :
    rank s ≤ 6 * input.length + 2 := by
  have htaken := congrArg List.length hs.taken
  rw [List.length_append, List.length_append] at htaken
  cases hturn with
  | fgets =>
      simp [rank, turnRank] at *
      omega
  | send hpos hfits =>
      simp [rank, turnRank, ClientPoint.pending, CString.strlen] at *
      omega
  | sent hsent hpos hfits =>
      have hlength := List.length_pos_of_ne_nil hsent
      have hupstream := List.ne_nil_of_length_pos hpos
      simp [rank, turnRank, hupstream] at *
      omega
  | received hsent hpos =>
      have hlength := List.length_pos_of_ne_nil hsent
      simp [rank, turnRank] at *
      omega
  | echoed hsent hpos hfits =>
      have hlength := List.length_pos_of_ne_nil hsent
      have hdownstream := List.ne_nil_of_length_pos hpos
      simp [rank, turnRank, hdownstream] at *
      omega
  | display hsent =>
      have hlength := List.length_pos_of_ne_nil hsent
      simp [rank, turnRank] at *
      omega
  | exited hserver =>
      rcases hserver with rfl | rfl <;> simp [rank, turnRank]

theorem Turn.rank_next (hturn : Turn s) (hs : Invariant input s)
    (hnot : ¬s.Ended) : rank s.next < rank s := by
  cases hturn with
  | @fgets clientBuf stdin stdout serverBuf sent =>
      simp only [State.next, stepFgets]
      split_ifs with hstdin
      · simp [rank, turnRank]
      · have hline := List.length_pos_of_ne_nil
          (fgets_ne_nil (by decide : 0 < maxLine - 1) hstdin)
        have hlength := congrArg List.length
          (CString.fgets_append (maxLine - 1) stdin)
        rw [List.length_append] at hlength
        simp only [rank, turnRank]
        omega
  | send hpos hfits =>
      simp only [State.next, rank, turnRank, stepClientSend]
      split_ifs <;> omega
  | sent hsent hpos hfits =>
      have hupstream := List.ne_nil_of_length_pos hpos
      simp [State.next, rank, turnRank, hupstream]
  | @received clientBuf stdin stdout serverBuf sent n hsent hpos =>
      have hecho := List.ne_nil_of_length_pos
        ((length_echo hs.serverBuf (hs.serverCount n rfl)).symm ▸ hpos)
      simp only [State.next, rank, turnRank, stepServerSend, List.nil_append,
        hecho]
      simp
  | echoed hsent hpos hfits =>
      have hdownstream := List.ne_nil_of_length_pos hpos
      simp [State.next, rank, turnRank, hdownstream]
  | display hsent => simp [State.next, rank, turnRank, stepClientDisplay]
  | exited hserver =>
      rcases hserver with rfl | rfl
      · simp [State.next, rank, turnRank]
      · exact absurd ⟨rfl, rfl⟩ hnot

theorem Turn.rank_lt (hturn : Turn s) (hs : Invariant input s)
    (hwhole : ReadsWhole s action)
    (hstep : UpperEcho.step s action = some t) : rank t < rank s := by
  rcases hturn.next_of_step hwhole hstep with ⟨rfl, hnot⟩
  exact hturn.rank_next hs hnot

/-! ## All clients -/

/-- A conversation in turns. -/
def InTurn (input : List UInt8) (s : State) : Prop :=
  Invariant input s ∧ Turn s

/-- The server has not accepted the client. -/
def WaitsInTurn (input : List UInt8) (s : State) : Prop :=
  Waits input s ∧ Turn s

theorem rules_inTurn (terminals : ℕ → Terminal) (hbuf : buf.length = maxLine) :
    protocol.Rules ReadsWhole
      (fun client =>
        initial (terminals client).buf buf (terminals client).input)
      (fun client => WaitsInTurn (terminals client).input)
      (fun client => InTurn (terminals client).input)
      (fun memory => memory.length = maxLine) where
  start := fun client =>
    ⟨⟨initial_invariant (terminals client).size hbuf, rfl⟩, .fgets⟩
  client := by
    rintro client s action next ⟨⟨hs, hserver⟩, hturn⟩ hside hwhole hstep
    have hinput := (terminals client).no_nul
    exact ⟨⟨step_invariant hinput hs hstep,
      (client_step hside hstep).1.trans hserver⟩,
      hturn.step hs hinput hwhole hstep⟩
  load := fun hwaits hmemory => ⟨hwaits.1.load hmemory, hwaits.2.load⟩
  step := by
    rintro client s action next ⟨hs, hturn⟩ hwhole hstep
    have hinput := (terminals client).no_nul
    exact ⟨step_invariant hinput hs hstep, hturn.step hs hinput hwhole hstep⟩
  save := fun hserves => hserves.1.serverBuf
  loadOpen := by
    rintro _ s _ ⟨⟨_, hserver⟩, _⟩
    simp [protocol, hserver]
  clientClosed := by
    intro s action next hside hstep
    simp [protocol, (client_step hside hstep).1]

theorem progress (terminals : ℕ → Terminal) :
    protocol.Progress ReadsWhole (fun client => InTurn (terminals client).input)
      (fun s => s.client = .exited) where
  serving := by
    rintro _ s ⟨_, hturn⟩ hopen
    have hserver : s.server ≠ .closed := by simpa [protocol] using hopen
    rcases hturn.progress (fun h => hserver h.2) with
      ⟨action, hwhole, hsome, _⟩
    exact ⟨action, hwhole, hsome⟩
  afterClose := by
    rintro _ s ⟨_, hturn⟩ hclosed hnot
    have hserver : s.server = .closed := by simpa [protocol] using hclosed
    rcases hturn.progress (fun h => hnot h.1) with
      ⟨action, hwhole, hsome, hside⟩
    exact ⟨action, hside hserver, hwhole, hsome⟩

theorem bounded (terminals : ℕ → Terminal) :
    protocol.Bounded ReadsWhole
      (fun client => WaitsInTurn (terminals client).input)
      (fun client => InTurn (terminals client).input)
      (fun memory => memory.length = maxLine) rank
      (fun client => 6 * (terminals client).input.length + 2) where
  waiting := fun hwaits _ hwhole hstep =>
    hwaits.2.rank_lt hwaits.1.1 hwhole hstep
  serving := fun hserves hwhole hstep => hserves.2.rank_lt hserves.1 hwhole hstep
  load := fun _ _ => le_refl _
  bound := fun hwaits => rank_le hwaits.2 hwaits.1.1

/-- Any number of clients connect to the server of `server_unix.c`, in any
interleaving with its conversations, and every `read` returns all that is
there.  The server never writes to a client that has gone, and the number of
steps is bounded by the inputs.  When no step is possible any more, the clients
have been served in the order in which they have connected, and each has
written out the whole of its input, upper-cased. -/
theorem clients_answered {terminals : ℕ → Terminal} (hbuf : buf.length = maxLine)
    {labels : List (IterativeServers.Label Action)}
    {system : IterativeServers.State State (List UInt8)}
    (hwhole : StepsMeet protocol.systemStep (Protocol.Admits ReadsWhole)
      (listening terminals buf) labels)
    (hrun : run protocol.systemStep (listening terminals buf) labels =
      some system) :
    (∀ client n, system.serving = some client →
      (system.sessions client).server = .send n →
        (system.sessions client).client = .receive) ∧
    labels.countP (fun label => !Protocol.Label.isConnect label) ≤
      ((Protocol.arrivals labels).map fun client =>
        6 * (terminals client).input.length + 3).sum ∧
    (protocol.Stuck ReadsWhole system →
      system.finished = Protocol.arrivals labels ∧
      ∀ client ∈ Protocol.arrivals labels,
        (system.sessions client).client = .exited ∧
        (system.sessions client).stdout =
          (terminals client).input.map toupper) := by
  have hrules := rules_inTurn terminals hbuf
  have hinitial : protocol.Sound
      (fun client => WaitsInTurn (terminals client).input)
      (fun client => InTurn (terminals client).input)
      (fun memory => memory.length = maxLine) (listening terminals buf) :=
    hrules.initial hbuf
  have hsound := hrules.run hbuf hwhole hrun
  have hconnected : system.connected = Protocol.arrivals labels :=
    Protocol.connected_of_run hrun
  refine ⟨?_, ?_, ?_⟩
  · intro client n hserving hsend
    exact (hsound.serving client hserving).1.2.client_of_send hsend
  · have hbound := (bounded terminals).run hrules hinitial hwhole hrun
    have hstart : Protocol.potential rank (listening terminals buf) = 0 := rfl
    rw [hstart, Nat.zero_add] at hbound
    exact (Nat.le_add_left _ _).trans hbound
  · intro hstuck
    rcases hstuck.all_exited (progress terminals) hsound with ⟨hall, hexited⟩
    refine ⟨hall.trans hconnected, ?_⟩
    intro client hmem
    rw [← hconnected] at hmem
    have hend := hexited client hmem
    have hserved := hsound.served client (hall ▸ hmem)
    exact ⟨hend, hserved.1.2.stdout_eq hserved.1.1 hend⟩

def served : List (IterativeServers.Label Action) :=
  twoClients ++ [.server .serverSend, .client 1 (.clientReceive 3),
    .client 1 .clientDisplay, .client 1 .clientFgets, .server .serverEof]

theorem clients_answered_two :
    ∃ system, run protocol.systemStep (listening terminals scratch) served =
        some system ∧
      (∀ client n, system.serving = some client →
        (system.sessions client).server = .send n →
          (system.sessions client).client = .receive) ∧
      (protocol.Stuck ReadsWhole system → system.finished = [0, 1]) := by
  have hwhole : StepsMeet protocol.systemStep (Protocol.Admits ReadsWhole)
      (listening terminals scratch) served := by
    decide +kernel
  refine exists_run_and (by decide +kernel) fun system hrun => ?_
  have hanswered := clients_answered rfl hwhole hrun
  exact ⟨hanswered.1, fun hstuck => (hanswered.2.2 hstuck).1⟩

end Miscellaneous.UpperEcho
