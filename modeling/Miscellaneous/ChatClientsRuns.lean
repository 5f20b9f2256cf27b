import Miscellaneous.ChatClients
import Miscellaneous.ChatServerResponses
import Mathlib.Tactic

/-!
# The connections between the chat server and its clients

What one step can do, and what it leaves of a client.  In every run a
descriptor of the server belongs to one client, and an open connection is
where the next `select` looks: behind a descriptor of the master set, or in
the backlog of the listening socket.
-/

namespace Miscellaneous.ChatClients

open GuardedRuns
open ChatServer (Setting Answer openDescriptors message)

/-! ## The moves -/

/-- What one step of a client can do, with the guards it passed. -/
inductive Client.Move (client : Client) : Action → Client → Prop where
  | connect (hpc : client.pc = .connecting) :
      Move client .connect { client with pc := .prompting, link := .pending }
  | sendLine {line : List Char} {count : ℕ} (hpc : client.pc = .prompting)
      (hcount : count ≤ line.length) (hempty : count = 0 → line = []) :
      Move client (.sendLine line count)
        { client with
          pc := .waiting
          toServer :=
            if client.link = .closed then client.toServer
            else client.toServer ++ line.take count }
  | recv {count : ℕ} (hpc : client.pc = .waiting) (hpos : 0 < count)
      (hsize : count ≤ recvBufSize) (hcount : count ≤ client.toClient.length) :
      Move client (.recv count)
        { client with
          pc := if count < recvBufSize then .prompting else .overrun
          toClient := client.toClient.drop count
          received := client.received ++ client.toClient.take count }
  | recvClosed (hpc : client.pc = .waiting) (hlink : client.link = .closed)
      (hnone : client.toClient = []) :
      Move client .recvClosed { client with pc := .prompting }
  | recvFails (hpc : client.pc = .waiting) :
      Move client .recvFails { client with pc := .exited }
  | exit {action : Action}
      (haction : action = .connectFails ∨ action = .sendFails ∨
        action = .endOfInput)
      (hpc : client.pc = .connecting ∨ client.pc = .prompting) :
      Move client action { client with pc := .exited }

theorem Client.step_move {client value : Client} {action : Action}
    (hstep : client.step action = some value) : client.Move action value := by
  cases action with
  | connect =>
      simp only [Client.step, Client.connect] at hstep
      split_ifs at hstep with hpc
      cases hstep
      exact .connect hpc
  | connectFails =>
      simp only [Client.step, Client.exit] at hstep
      split_ifs at hstep with hpc
      cases hstep
      exact .exit (by simp) (.inl hpc)
  | sendLine line count =>
      simp only [Client.step, Client.sendLine] at hstep
      split_ifs at hstep with hguard hlink <;> cases hstep
      · have hmove := Move.sendLine hguard.1 hguard.2.2.1 hguard.2.2.2
        rwa [if_pos hlink] at hmove
      · have hmove := Move.sendLine hguard.1 hguard.2.2.1 hguard.2.2.2
        rwa [if_neg hlink] at hmove
  | sendFails =>
      simp only [Client.step, Client.exit] at hstep
      split_ifs at hstep with hpc
      cases hstep
      exact .exit (by simp) (.inr hpc)
  | endOfInput =>
      simp only [Client.step, Client.exit] at hstep
      split_ifs at hstep with hpc
      cases hstep
      exact .exit (by simp) (.inr hpc)
  | recv count =>
      simp only [Client.step, Client.recv] at hstep
      split_ifs at hstep with hguard hfull <;> cases hstep
      · have hmove := Move.recv hguard.1 hguard.2.1 hguard.2.2.1 hguard.2.2.2
        rwa [if_pos hfull] at hmove
      · have hmove := Move.recv hguard.1 hguard.2.1 hguard.2.2.1 hguard.2.2.2
        rwa [if_neg hfull] at hmove
  | recvClosed =>
      simp only [Client.step, Client.recvClosed] at hstep
      split_ifs at hstep with hguard
      cases hstep
      exact .recvClosed hguard.1 hguard.2.1 hguard.2.2
  | recvFails =>
      simp only [Client.step, Client.exit] at hstep
      split_ifs at hstep with hpc
      cases hstep
      exact .recvFails hpc

/-- The state after an answer of the server's system. -/
def State.served (setting : Setting) (state : State) (peer : ℕ)
    (answer : Answer) (server : ChatServer.State) : State :=
  (State.setClient { state with server := server } peer
    ((state.clients peer).answered answer)).dropClosed setting.listenfd
      (openDescriptors setting.listenfd server.trace)

inductive Move (setting : Setting) (s : State) : Label → State → Prop where
  | client {client : ℕ} {action : Action} {value : Client}
      (hlisten : action = .connect → Listening setting s)
      (hmove : (s.clients client).Move action value) :
      Move setting s (.client client action) (s.setClient client value)
  | server {peer : ℕ} {answer : Answer} {server : ChatServer.State}
      (hkilled : s.killed = false)
      (hallows : PeerAllows s.server (s.clients peer) answer)
      (hstep : ChatServer.step setting s.server answer = some server) :
      Move setting s (.server peer answer) (s.served setting peer answer server)
  | brokenPipe {peer : ℕ} (hkilled : s.killed = false) :
      Move setting s (.brokenPipe peer)
        (State.dropClosed { s with killed := true } setting.listenfd ∅)

theorem step_move {setting : Setting} {s t : State} {label : Label}
    (hstep : step setting s label = some t) : Move setting s label t := by
  cases label with
  | client client action =>
      simp only [step, stepClient] at hstep
      split_ifs at hstep with hlisten
      rcases Option.map_eq_some_iff.mp hstep with ⟨value, hvalue, rfl⟩
      exact .client hlisten (Client.step_move hvalue)
  | server peer answer =>
      simp only [step, stepServer] at hstep
      split_ifs at hstep with hguard
      rcases Option.map_eq_some_iff.mp hstep with ⟨server, hserver, rfl⟩
      exact .server hguard.1 hguard.2 hserver
  | brokenPipe peer =>
      simp only [step, stepBrokenPipe] at hstep
      split_ifs at hstep with hguard
      cases hstep
      exact .brokenPipe hguard.1

/-! ## What a step leaves of a client -/

section Frames

variable (client : Client) (listenfd : ℕ) (fds : Finset ℕ)

theorem Client.dropClosed_eq :
    client.dropClosed listenfd fds =
      { client with link := (client.dropClosed listenfd fds).link } := by
  unfold Client.dropClosed
  cases client.link with
  | none => rfl
  | pending =>
      dsimp only
      split_ifs <;> rfl
  | accepted fd =>
      dsimp only
      split_ifs <;> rfl
  | closed => rfl

@[simp] theorem Client.dropClosed_pc :
    (client.dropClosed listenfd fds).pc = client.pc := by
  rw [Client.dropClosed_eq]

@[simp] theorem Client.dropClosed_toServer :
    (client.dropClosed listenfd fds).toServer = client.toServer := by
  rw [Client.dropClosed_eq]

@[simp] theorem Client.dropClosed_toClient :
    (client.dropClosed listenfd fds).toClient = client.toClient := by
  rw [Client.dropClosed_eq]

@[simp] theorem Client.dropClosed_received :
    (client.dropClosed listenfd fds).received = client.received := by
  rw [Client.dropClosed_eq]

theorem Client.dropClosed_link_accepted {fd : ℕ} :
    (client.dropClosed listenfd fds).link = .accepted fd ↔
      client.link = .accepted fd ∧ fd ∈ fds := by
  unfold Client.dropClosed
  cases hlink : client.link with
  | none => simp [hlink]
  | pending =>
      dsimp only
      split_ifs <;> simp [hlink]
  | accepted other =>
      dsimp only
      split_ifs with hopen
      · rw [hlink, Link.accepted.injEq]
        constructor
        · rintro rfl
          exact ⟨rfl, hopen⟩
        · exact fun h => h.1
      · simp only [Link.accepted.injEq, false_iff, not_and]
        rintro rfl
        exact hopen
  | closed => simp [hlink]

theorem Client.dropClosed_link_closed (hlink : client.link = .closed) :
    (client.dropClosed listenfd fds).link = .closed := by
  simp [Client.dropClosed, hlink]

theorem Client.dropClosed_link_none :
    (client.dropClosed listenfd fds).link = .none ↔ client.link = .none := by
  unfold Client.dropClosed
  cases hlink : client.link with
  | none => simp [hlink]
  | pending =>
      dsimp only
      split_ifs <;> simp [hlink]
  | accepted fd =>
      dsimp only
      split_ifs <;> simp [hlink]
  | closed => simp [hlink]

@[simp] theorem Client.answered_pc (peer : Client) (answer : Answer) :
    (peer.answered answer).pc = peer.pc := by
  cases answer <;> rfl

@[simp] theorem Client.answered_received (peer : Client) (answer : Answer) :
    (peer.answered answer).received = peer.received := by
  cases answer <;> rfl

theorem Client.answered_link (peer : Client) (answer : Answer) :
    (peer.answered answer).link = peer.link ∨
      ∃ fd, answer = .accepted fd ∧
        (peer.answered answer).link = .accepted fd := by
  cases answer with
  | accepted fd => exact Or.inr ⟨fd, rfl, rfl⟩
  | _ => exact Or.inl rfl

theorem Client.Move.pc {client value : Client} {action : Action}
    (hmove : client.Move action value) : value.pc ≠ .connecting := by
  cases hmove with
  | recv _ _ _ _ =>
      dsimp only
      split_ifs <;> simp
  | _ => simp

theorem State.served_clients (setting : Setting) (state : State) (peer : ℕ)
    (answer : Answer) (server : ChatServer.State) (client : ℕ) :
    (state.served setting peer answer server).clients client =
      (if client = peer then (state.clients peer).answered answer
        else state.clients client).dropClosed setting.listenfd
          (openDescriptors setting.listenfd server.trace) := by
  rw [← State.setClient_clients { state with server := server }]
  rfl

/-- A client changes its link only by connecting. -/
theorem Client.Move.link {client value : Client} {action : Action}
    (hmove : client.Move action value) :
    value.link = client.link ∨
      client.pc = .connecting ∧ value.link = .pending := by
  cases hmove with
  | connect hpc => exact Or.inr ⟨hpc, rfl⟩
  | _ => exact Or.inl rfl

end Frames

/-! ## What a step of the server does to the descriptor it is at -/

section Server

variable {setting : Setting} {s next : ChatServer.State} {answer : Answer}

theorem received_pos {len : ℕ}
    (hstep : ChatServer.step setting s (.received len) = some next) :
    0 < len := by
  cases hpc : s.pc with
  | receiving =>
      simp only [ChatServer.step, hpc, ChatServer.stepReceiving] at hstep
      split_ifs at hstep with hguard
      exact hguard.1
  | _ =>
      simp [ChatServer.step, hpc, ChatServer.stepSelect, ChatServer.stepSweep,
        ChatServer.stepAccepting, ChatServer.stepSending,
        ChatServer.stepClosing, ChatServer.stepCleanup] at hstep

/-- The server gets to a `send` only by receiving. -/
theorem received_of_sending
    (hstep : ChatServer.step setting s answer = some next)
    (hsending : next.pc = .sending) :
    ∃ len, answer = .received len ∧ next.i = s.i := by
  cases ChatServer.step_transition hstep with
  | received _ => exact ⟨_, rfl, rfl⟩
  | selectedNone _ _ _ =>
      rcases ChatServer.State.loop_pc { s with workingSet := _ } with
        hloop | hloop <;>
      · rw [hloop] at hsending
        contradiction
  | sweepEnd _ _ =>
      rcases ChatServer.State.loop_pc s with hloop | hloop <;>
      · rw [hloop] at hsending
        contradiction
  | selectFailed hpc => cases hsending
  | selected hpc _ _ => cases hsending
  | sweepSkip _ _ _ _ => cases hsending
  | sweepListening _ _ _ _ _ => cases hsending
  | sweepConnection _ _ _ _ _ => cases hsending
  | @accepted newSd hpc _ _ =>
      rcases s.addConnection_pc newSd with h | h <;> simp [h, hpc] at hsending
  | acceptWouldBlock _ => cases hsending
  | acceptFailed _ => cases hsending
  | recvStop _ _ _ => cases hsending
  | sent _ => cases hsending
  | sendFailed _ => cases hsending
  | keep _ _ => cases hsending
  | close _ _ _ => cases hsending
  | closeFault _ _ _ _ => cases hsending
  | cleanup _ => cases hsending

/-- The server leaves a `send` with an answer or about to close. -/
theorem sent_or_closing_of_step
    (hstep : ChatServer.step setting s answer = some next)
    (hsending : s.pc = .sending) :
    (∃ count, answer = .sent count) ∨
      next.pc = .closing ∧ next.closeConn = true ∧ next.i = s.i := by
  have htransition := ChatServer.step_transition hstep
  cases htransition with
  | sent _ => exact Or.inl ⟨_, rfl⟩
  | sendFailed _ => exact Or.inr ⟨rfl, rfl, rfl⟩
  | _ => simp_all

/-- A connection that is to be closed is closed by the next step. -/
theorem not_open_of_closing
    (hstep : ChatServer.step setting s answer = some next)
    (hclosing : s.pc = .closing) (hclose : s.closeConn = true) :
    s.i ∉ openDescriptors setting.listenfd next.trace := by
  have htransition := ChatServer.step_transition hstep
  cases htransition with
  | close _ _ _ =>
      simp [ChatServer.State.next, ChatServer.State.closeConnection,
        ChatServer.State.log]
  | closeFault _ _ _ _ =>
      simp [ChatServer.State.closeConnection, ChatServer.State.log]
  | _ => simp_all

end Server

/-! ## One client for a descriptor -/

structure Wired (setting : Setting) (s : State) : Prop where
  unique : ∀ {fd c d : ℕ}, (s.clients c).link = .accepted fd →
    (s.clients d).link = .accepted fd → c = d
  isOpen : ∀ {fd c : ℕ}, (s.clients c).link = .accepted fd →
    s.killed = false ∧ fd ∈ openDescriptors setting.listenfd s.server.trace

theorem wired_initial (setting : Setting) : Wired setting (initial setting) where
  unique := by simp [initial, start]
  isOpen := by simp [initial, start]

variable {setting : Setting} {s t : State}

/-- A descriptor is behind a link after a step because it was, or because it
was accepted and no other client can have it. -/
theorem served_link_accepted {peer : ℕ} {answer : Answer}
    {server : ChatServer.State} {client fd : ℕ}
    (hlink : ((s.served setting peer answer server).clients client).link =
      .accepted fd) :
    fd ∈ openDescriptors setting.listenfd server.trace ∧
      ((s.clients client).link = .accepted fd ∨
        client = peer ∧ answer = .accepted fd) := by
  rw [State.served_clients, Client.dropClosed_link_accepted] at hlink
  refine ⟨hlink.2, ?_⟩
  by_cases hpeer : client = peer
  · rw [if_pos hpeer] at hlink
    rcases Client.answered_link (s.clients peer) answer with
      hsame | ⟨other, hanswer, hnew⟩
    · rw [hsame] at hlink
      exact Or.inl (hpeer ▸ hlink.1)
    · rw [hnew, Link.accepted.injEq] at hlink
      exact Or.inr ⟨hpeer, hlink.1 ▸ hanswer⟩
  · rw [if_neg hpeer] at hlink
    exact Or.inl hlink.1

theorem Wired.client (hwired : Wired setting s) {client : ℕ} {action : Action}
    {value : Client} (hmove : (s.clients client).Move action value) :
    Wired setting (s.setClient client value) := by
  have hold : ∀ {fd c : ℕ},
      ((s.setClient client value).clients c).link = .accepted fd →
        (s.clients c).link = .accepted fd := by
    intro fd c hlink
    rw [State.setClient_clients] at hlink
    split_ifs at hlink with hc
    · rcases hmove.link with hsame | ⟨_, hpending⟩
      · rw [hc, ← hsame, hlink]
      · rw [hpending] at hlink
        contradiction
    · exact hlink
  exact ⟨fun hc hd => hwired.unique (hold hc) (hold hd),
    fun hc => hwired.isOpen (hold hc)⟩

theorem Wired.server (hwired : Wired setting s) {peer : ℕ} {answer : Answer}
    {server : ChatServer.State} (hkilled : s.killed = false)
    (hstep : ChatServer.step setting s.server answer = some server) :
    Wired setting (s.served setting peer answer server) where
  unique := by
    intro fd c d hc hd
    have hnew : ∀ {other}, (s.clients other).link = .accepted fd →
        answer ≠ .accepted fd := by
      rintro other hother rfl
      cases ChatServer.step_transition hstep with
      | accepted _ _ hnew => exact hnew (hwired.isOpen hother).2
      | recvStop _ _ hstop => simp at hstop
    rcases (served_link_accepted hc).2 with hold | ⟨rfl, hanswer⟩
    · rcases (served_link_accepted hd).2 with hother | ⟨rfl, hanswer⟩
      · exact hwired.unique hold hother
      · exact absurd hanswer (hnew hold)
    · rcases (served_link_accepted hd).2 with hother | ⟨rfl, _⟩
      · exact absurd hanswer (hnew hother)
      · rfl
  isOpen := fun hc => ⟨hkilled, (served_link_accepted hc).1⟩

theorem Wired.step {label : Label} (hwired : Wired setting s)
    (hstep : step setting s label = some t) : Wired setting t := by
  cases step_move hstep with
  | client _ hmove => exact hwired.client hmove
  | server hkilled _ hserver => exact hwired.server hkilled hserver
  | brokenPipe _ =>
      -- nothing is behind a descriptor of a dead process
      have hnone : ∀ {fd c : ℕ}, ((State.dropClosed { s with killed := true }
          setting.listenfd ∅).clients c).link ≠ .accepted fd := by
        intro fd c hlink
        exact Finset.notMem_empty fd
          ((Client.dropClosed_link_accepted _ _ _).mp hlink).2
      exact ⟨fun hc => absurd hc hnone, fun hc => absurd hc hnone⟩

/-! ## What a step of the server leaves of the streams -/

/-- A connection that the server had accepted is behind its descriptor still,
or closed. -/
theorem served_link_of_accepted (setting : Setting)
    (server : ChatServer.State) {peer : ℕ} {answer : Answer} {client fd : ℕ}
    (hallows : PeerAllows s.server (s.clients peer) answer)
    (hlink : (s.clients client).link = .accepted fd) :
    fd ∈ openDescriptors setting.listenfd server.trace ∧
        ((s.served setting peer answer server).clients client).link =
          .accepted fd ∨
      ((s.served setting peer answer server).clients client).link = .closed := by
  have hsame : (if client = peer then (s.clients peer).answered answer
      else s.clients client).link = .accepted fd := by
    split_ifs with hpeer
    · subst hpeer
      rcases Client.answered_link (s.clients client) answer with
        hsame | ⟨other, rfl, _⟩
      · rw [hsame, hlink]
      · simp [PeerAllows, hlink] at hallows
    · exact hlink
  rw [State.served_clients]
  by_cases hopen : fd ∈ openDescriptors setting.listenfd server.trace
  · exact Or.inl ⟨hopen,
      (Client.dropClosed_link_accepted _ _ _).mpr ⟨hsame, hopen⟩⟩
  · refine Or.inr ?_
    simp [Client.dropClosed, hsame, hopen]

theorem served_link_of_closed {peer : ℕ} {answer : Answer}
    {server : ChatServer.State} {client : ℕ}
    (hallows : PeerAllows s.server (s.clients peer) answer)
    (hlink : (s.clients client).link = .closed) :
    ((s.served setting peer answer server).clients client).link = .closed := by
  rw [State.served_clients]
  apply Client.dropClosed_link_closed
  split_ifs with hpeer
  · subst hpeer
    rcases Client.answered_link (s.clients client) answer with
      hsame | ⟨other, rfl, _⟩
    · rw [hsame, hlink]
    · simp [PeerAllows, hlink] at hallows
  · exact hlink

theorem served_toClient (setting : Setting) (s : State) (peer : ℕ)
    (answer : Answer) (server : ChatServer.State) (client : ℕ) :
    ((s.served setting peer answer server).clients client).toClient =
        (s.clients client).toClient ∨
      ∃ count, client = peer ∧ answer = .sent count ∧
        ((s.served setting peer answer server).clients client).toClient =
          (s.clients client).toClient ++ message.toList.take count := by
  rw [State.served_clients, Client.dropClosed_toClient]
  split_ifs with hpeer
  · subst hpeer
    cases answer with
    | sent count => exact Or.inr ⟨count, rfl, rfl, rfl⟩
    | _ => exact Or.inl rfl
  · exact Or.inl rfl

theorem served_toServer (setting : Setting) (s : State) (peer : ℕ)
    (answer : Answer) (server : ChatServer.State) (client : ℕ) :
    ((s.served setting peer answer server).clients client).toServer =
        (s.clients client).toServer ∨
      ∃ len, client = peer ∧ answer = .received len ∧
        ((s.served setting peer answer server).clients client).toServer =
          (s.clients client).toServer.drop len := by
  rw [State.served_clients, Client.dropClosed_toServer]
  split_ifs with hpeer
  · subst hpeer
    cases answer with
    | received len => exact Or.inr ⟨len, rfl, rfl, rfl⟩
    | _ => exact Or.inl rfl
  · exact Or.inl rfl

/-- A message that has been sent in part is not empty. -/
theorem take_message_ne_nil {count : ℕ} (hpos : 0 < count) :
    message.toList.take count ≠ [] := by
  intro hnil
  have hlength : (message.toList.take count).length = 0 := by rw [hnil]; rfl
  rw [List.length_take, String.length_toList, ChatServer.message_length]
    at hlength
  omega

/-- Only a step that takes bytes from the client brings the server to an
answer to it. -/
theorem answer_of_received {c peer : ℕ} {answer : Answer}
    {server : ChatServer.State} (hwired : Wired setting s)
    (hallows : PeerAllows s.server (s.clients peer) answer)
    (hstep : ChatServer.step setting s.server answer = some server)
    (hsending : server.pc = .sending)
    (hlink : ((s.served setting peer answer server).clients c).link =
      .accepted server.i) :
    c = peer ∧ ∃ len, answer = .received len := by
  rcases received_of_sending hstep hsending with ⟨len, rfl, hi⟩
  rcases (served_link_accepted hlink).2 with hold | ⟨_, hanswer⟩
  · rw [hi] at hold
    exact ⟨hwired.unique hold hallows.1, len, rfl⟩
  · cases hanswer

/-! ## Every link that is open is watched -/

structure Joined (setting : Setting) (s : State) : Prop where
  wired : Wired setting s
  server : ChatServer.Invariant setting s.server
  linked : ∀ {c : ℕ}, (s.clients c).link = .none →
    (s.clients c).pc = .connecting ∨ (s.clients c).pc = .exited
  backlog : ∀ {c : ℕ}, (s.clients c).link = .pending → Listening setting s

theorem joined_initial (setting : Setting) :
    Joined setting (initial setting) where
  wired := wired_initial setting
  server := ChatServer.initial_invariant setting
  linked := fun _ => Or.inl rfl
  backlog := by simp [initial, start]

theorem Client.dropClosed_link_pending (client : Client) (listenfd : ℕ)
    (fds : Finset ℕ) :
    (client.dropClosed listenfd fds).link = .pending ↔
      client.link = .pending ∧ listenfd ∈ fds := by
  unfold Client.dropClosed
  cases hlink : client.link with
  | none => simp [hlink]
  | pending =>
      dsimp only
      split_ifs with hopen <;> simp [hlink, hopen]
  | accepted fd =>
      dsimp only
      split_ifs <;> simp [hlink]
  | closed => simp [hlink]

theorem served_link_pending {peer : ℕ} {answer : Answer}
    {server : ChatServer.State} {client : ℕ}
    (hlink : ((s.served setting peer answer server).clients client).link =
      .pending) :
    setting.listenfd ∈ openDescriptors setting.listenfd server.trace := by
  rw [State.served_clients, Client.dropClosed_link_pending] at hlink
  exact hlink.2

theorem served_link_none {peer : ℕ} {answer : Answer}
    {server : ChatServer.State} {client : ℕ}
    (hlink : ((s.served setting peer answer server).clients client).link =
      .none) : (s.clients client).link = .none := by
  rw [State.served_clients, Client.dropClosed_link_none] at hlink
  split_ifs at hlink with hpeer
  · rcases Client.answered_link (s.clients peer) answer with
      hsame | ⟨fd, _, hnew⟩
    · rw [hpeer, ← hsame, hlink]
    · rw [hnew] at hlink
      contradiction
  · exact hlink

@[simp] theorem served_pc (peer : ℕ) (answer : Answer)
    (server : ChatServer.State) (client : ℕ) :
    ((s.served setting peer answer server).clients client).pc =
      (s.clients client).pc := by
  rw [State.served_clients, Client.dropClosed_pc]
  split_ifs with hpeer
  · rw [hpeer, Client.answered_pc]
  · rfl

theorem Joined.client (hjoined : Joined setting s) {client : ℕ}
    {action : Action} {value : Client}
    (hlisten : action = .connect → Listening setting s)
    (hmove : (s.clients client).Move action value) :
    Joined setting (s.setClient client value) where
  wired := hjoined.wired.client hmove
  server := hjoined.server
  linked := by
    intro c hlink
    rw [State.setClient_clients] at hlink ⊢
    split_ifs at hlink ⊢ with hc
    · cases hmove with
      | connect _ => cases hlink
      | sendLine hpc _ _ => simpa [hpc] using hjoined.linked hlink
      | recv hpc _ _ _ => simpa [hpc] using hjoined.linked hlink
      | recvClosed hpc _ _ => simpa [hpc] using hjoined.linked hlink
      | recvFails _ => exact Or.inr rfl
      | exit _ _ => exact Or.inr rfl
    · exact hjoined.linked hlink
  backlog := by
    intro c hlink
    rw [State.setClient_clients] at hlink
    split_ifs at hlink with hc
    · cases hmove with
      | connect _ => exact hlisten rfl
      | _ => exact hjoined.backlog hlink
    · exact hjoined.backlog hlink

theorem Joined.step {label : Label} (hjoined : Joined setting s)
    (hstep : step setting s label = some t) : Joined setting t := by
  have hwired : Wired setting t := hjoined.wired.step hstep
  cases step_move hstep with
  | client hlisten hmove => exact hjoined.client hlisten hmove
  | server hkilled _ hserver =>
      refine ⟨hwired, hjoined.server.step hserver, ?_, ?_⟩
      · intro c hlink
        rw [served_pc]
        exact hjoined.linked (served_link_none hlink)
      · intro c hlink
        exact ⟨hkilled, served_link_pending hlink⟩
  | brokenPipe _ =>
      refine ⟨hwired, hjoined.server, ?_, ?_⟩
      · intro c hlink
        simp only [State.dropClosed, Client.dropClosed_link_none,
          Client.dropClosed_pc] at hlink ⊢
        exact hjoined.linked hlink
      · intro c hlink
        exact absurd ((Client.dropClosed_link_pending _ _ _).mp hlink).2
          (Finset.notMem_empty _)

theorem run_joined {labels : List Label}
    (hrun : run (step setting) (initial setting) labels = some s) :
    Joined setting s :=
  run_invariant (fun _ _ _ hjoined hstep => hjoined.step hstep)
    (joined_initial setting) hrun

/-- Where `accept` returns descriptors below `FD_SETSIZE` only, the server
never leaves its sets. -/
theorem run_defined {labels : List Label}
    (hlisten : setting.listenfd < ChatServer.fdSetSize)
    (hlimit : setting.fdLimit ≤ ChatServer.fdSetSize)
    (hrun : run (step setting) (initial setting) labels = some s) :
    s.server.pc ≠ .undefined := by
  refine @run_invariant _ _ (step setting) (fun s => s.server.pc ≠ .undefined)
    ?_ labels _ s ?_ hrun
  · intro s label t hdefined hstep
    cases step_move hstep with
    | client _ _ => exact hdefined
    | server _ _ hserver =>
        intro hpc
        rcases ChatServer.undefined_of_step hserver hpc with
          ⟨fd, hsize, hfd, _⟩
        omega
    | brokenPipe _ => exact hdefined
  · simp [initial, ChatServer.initial, hlisten]

/-- An exited server has closed everything. -/
theorem openDescriptors_of_exited {server : ChatServer.State}
    (hinv : ChatServer.Invariant setting server) (hpc : server.pc = .exited) :
    openDescriptors setting.listenfd server.trace = ∅ := by
  rcases hinv.cleaned hpc with ⟨before, hmaster, htrace⟩
  rw [htrace, ChatServer.openDescriptors_closes, Finset.sdiff_eq_empty_iff_subset,
    ← hmaster]
  intro fd hfd
  exact List.mem_toFinset.mpr ((ChatServer.mem_cleanupCloses hinv.greatest).mpr hfd)

/-- The server looks at the connection in its next `select`: the descriptor,
or the listening socket in whose backlog it is, is in the master set. -/
def Watched (setting : Setting) (s : State) (c : ℕ) : Prop :=
  s.killed = false ∧
    ((s.clients c).link = .pending ∧ setting.listenfd ∈ s.server.masterSet ∨
      ∃ fd ∈ s.server.masterSet, (s.clients c).link = .accepted fd)

theorem Joined.masterSet (hjoined : Joined setting s) {fd : ℕ}
    (hopen : fd ∈ openDescriptors setting.listenfd s.server.trace) :
    fd ∈ s.server.masterSet := by
  rwa [hjoined.server.tracked]
  intro hpc
  rw [openDescriptors_of_exited hjoined.server hpc] at hopen
  exact absurd hopen (Finset.notMem_empty _)

theorem Joined.watched (hjoined : Joined setting s) {c : ℕ}
    (hwait : (s.clients c).pc = .waiting)
    (hopen : (s.clients c).link ≠ .closed) : Watched setting s c := by
  cases hlink : (s.clients c).link with
  | none => simpa [hwait] using hjoined.linked hlink
  | pending =>
      rcases hjoined.backlog hlink with ⟨hkilled, hlisten⟩
      exact ⟨hkilled, Or.inl ⟨hlink, hjoined.masterSet hlisten⟩⟩
  | accepted fd =>
      rcases hjoined.wired.isOpen hlink with ⟨hkilled, hfd⟩
      exact ⟨hkilled, Or.inr ⟨fd, hjoined.masterSet hfd, hlink⟩⟩
  | closed => exact absurd hlink hopen

end Miscellaneous.ChatClients
