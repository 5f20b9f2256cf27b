import Miscellaneous.ConfirmationsRuns
import Miscellaneous.IterativeServersProgress
import Mathlib.Tactic

/-!
# All clients of the confirming server

The loop of `sockets/server.c` around its conversations, with any number of
clients.  The buffer of the server is a local of one round, so that nothing is
taken from one client to the next.  As long as every `read` returns the whole
message, no client is left waiting for ever, and each of them prints its
titles.
-/

namespace Miscellaneous.Confirmations

open GuardedRuns IterativeServers

def Action.isServer : Action → Bool
  | .clientWrite => false
  | .clientRead _ => false
  | .clientPuts => false
  | .clientClose => false
  | .serverRead _ => true
  | .serverEcho => true
  | .serverClose => true

def protocol (setting : Setting) : Protocol State Action Unit where
  step := step setting
  isServer := Action.isServer
  closed := fun s => s.server = .closed
  load := fun _ s => s
  save := fun _ => ()

/-- Nobody has connected yet. -/
def listening : IterativeServers.State State Unit :=
  IterativeServers.initial (fun _ => initial) ()

variable {setting : Setting} {s t : State} {action : Action}

/-- A client leaves the server's side alone. -/
theorem client_step (hside : action.isServer = false)
    (hstep : step setting s action = some t) :
    t.server = s.server ∧ t.serverRound = s.serverRound := by
  cases action with
  | clientWrite =>
      simp only [step, stepClientWrite] at hstep
      split_ifs at hstep with hclient hround
      split at hstep
      · split_ifs at hstep <;> cases hstep <;> exact ⟨rfl, rfl⟩
      · cases hstep
  | clientRead count =>
      simp only [step, stepClientRead] at hstep
      split_ifs at hstep <;> cases hstep <;> exact ⟨rfl, rfl⟩
  | clientPuts =>
      simp only [step] at hstep
      split at hstep
      · cases hstep
        exact ⟨rfl, rfl⟩
      · cases hstep
  | clientClose =>
      simp only [step] at hstep
      split_ifs at hstep
      cases hstep
      exact ⟨rfl, rfl⟩
  | serverRead count => cases hside
  | serverEcho => cases hside
  | serverClose => cases hside

/-- The server has not accepted the client. -/
def Waits (setting : Setting) (s : State) : Prop :=
  Lockstep setting s ∧ s.server = .read ∧ s.serverRound = 0

theorem rules (setting : Setting) :
    (protocol setting).Rules (ReadsWhole setting) (fun _ => initial)
      (fun _ => Waits setting) (fun _ => Lockstep setting) (fun _ => True) where
  start := fun _ => ⟨initial_lockstep setting, rfl, rfl⟩
  client := by
    rintro _ s action next ⟨hlockstep, hserver, hround⟩ hside hwhole hstep
    rcases client_step hside hstep with ⟨hnext, hnextRound⟩
    exact ⟨hlockstep.step hwhole hstep, hnext.trans hserver,
      hnextRound.trans hround⟩
  load := fun hwaits _ => hwaits.1
  step := fun hlockstep hwhole hstep => hlockstep.step hwhole hstep
  save := fun _ => trivial
  loadOpen := by
    rintro _ s _ ⟨_, hserver, _⟩
    simp [protocol, hserver]
  clientClosed := by
    intro s action next hside hstep
    simp [protocol, (client_step hside hstep).1]

/-! ## Progress -/

theorem isSome_clientWrite {i : ℕ} {confirmations : List (List UInt8)}
    {server : ServerPoint} {serverRound : ℕ} {upstream downstream : List UInt8}
    (hi : i < setting.conversationLen) :
    (step setting ⟨.write, i, confirmations, server, serverRound, upstream,
      downstream⟩ .clientWrite).isSome := by
  rcases setting.book_of_lt hi with ⟨book, hbook⟩
  simp only [step, stepClientWrite, if_pos hi, hbook, if_true]
  split_ifs <;> rfl

/-- A conversation can go on until both are at their ends, and when the server
is at its end, by a step of the client. -/
theorem Lockstep.progress (hlockstep : Lockstep setting s)
    (hnot : ¬(s.client = .exited ∧ s.server = .closed)) :
    ∃ action, ReadsWhole setting s action ∧
      (Confirmations.step setting s action).isSome ∧
      (s.server = .closed → action.isServer = false) := by
  cases hlockstep with
  | @head i client server downstream hi hclient hserver hdownstream =>
      rcases hclient with rfl | ⟨rfl, hlast⟩
      · rcases hi.lt_or_eq with hlt | hlast
        · exact ⟨.clientWrite, trivial, isSome_clientWrite hlt, fun _ => rfl⟩
        · refine ⟨.clientClose, trivial, ?_, fun _ => rfl⟩
          simp [Confirmations.step, hlast]
      · rcases hserver with rfl | ⟨rfl, _⟩
        · refine ⟨.serverClose, trivial, ?_, by simp⟩
          simp [Confirmations.step, hlast]
        · exact absurd ⟨rfl, rfl⟩ hnot
  | @sent i book hi hbook =>
      rcases setting.length_book hbook with ⟨hpos, hfits⟩
      refine ⟨.serverRead book.bytes.length, rfl, ?_, by simp⟩
      have hreadable : Readable book.bytes book.bytes.length :=
        ⟨hpos, by omega, le_refl _⟩
      simp [Confirmations.step, stepServerRead, hi, hreadable]
  | received hi hbook => exact ⟨.serverEcho, trivial, rfl, by simp⟩
  | @echoed i book server hi hbook hserver =>
      refine ⟨.clientRead (buffSize + 1), Or.inl rfl, ?_, fun _ => rfl⟩
      have hlength := length_echoBuffer (setting.length_book hbook).2
      have hreadable : Readable (echoBuffer book.bytes) (buffSize + 1) :=
        ⟨by omega, le_refl _, hlength.ge⟩
      simp [Confirmations.step, stepClientRead, hreadable]
  | confirmed hi hbook hbuffer hserver hdownstream =>
      exact ⟨.clientPuts, trivial, rfl, fun _ => rfl⟩

theorem progress (setting : Setting) :
    Protocol.Progress (protocol setting) (ReadsWhole setting)
      (fun _ => Lockstep setting) (fun s => s.client = .exited) where
  serving := by
    intro _ s hlockstep hopen
    have hserver : s.server ≠ .closed := by simpa [protocol] using hopen
    rcases hlockstep.progress (fun h => hserver h.2) with
      ⟨action, hwhole, hsome, _⟩
    exact ⟨action, hwhole, hsome⟩
  afterClose := by
    intro _ s hlockstep hclosed hnot
    have hserver : s.server = .closed := by simpa [protocol] using hclosed
    rcases hlockstep.progress (fun h => hnot h.1) with
      ⟨action, hwhole, hsome, hside⟩
    exact ⟨action, hside hserver, hwhole, hsome⟩

/-! ## How long it takes -/

def clientRank (setting : Setting) (round : ℕ) : ClientPoint → ℕ
  | .write => 3 * (setting.conversationLen - round) + 1
  | .read => 3 * (setting.conversationLen - round)
  | .puts _ => 3 * (setting.conversationLen - round) - 1
  | .exited => 0

def serverRank (setting : Setting) (round : ℕ) : ServerPoint → ℕ
  | .read => 2 * (setting.conversationLen - round) + 1
  | .echo _ => 2 * (setting.conversationLen - round)
  | .closed => 0

/-- The calls that client and server have still before them. -/
def rank (setting : Setting) (s : State) : ℕ :=
  clientRank setting s.clientRound s.client +
    serverRank setting s.serverRound s.server

theorem rank_le (setting : Setting) (s : State) :
    rank setting s ≤ 5 * setting.conversationLen + 2 := by
  have hclient : clientRank setting s.clientRound s.client ≤
      3 * setting.conversationLen + 1 := by
    cases s.client <;> simp only [clientRank] <;> omega
  have hserver : serverRank setting s.serverRound s.server ≤
      2 * setting.conversationLen + 1 := by
    cases s.server <;> simp only [serverRank] <;> omega
  unfold rank
  omega

/-- A message that is on its way belongs to a round. -/
theorem Lockstep.round_lt (hlockstep : Lockstep setting s) :
    (s.client = .read → s.clientRound < setting.conversationLen) ∧
      (∀ buffer, s.client = .puts buffer →
        s.clientRound < setting.conversationLen) ∧
      ∀ buffer, s.server = .echo buffer →
        s.serverRound < setting.conversationLen := by
  cases hlockstep with
  | head hi hclient hserver hdownstream =>
      rcases hclient with rfl | ⟨rfl, _⟩ <;>
      rcases hserver with rfl | ⟨rfl, _⟩ <;> simp
  | sent hi hbook => simp [hi]
  | received hi hbook => simp [hi]
  | echoed hi hbook hserver =>
      rcases hserver with rfl | ⟨rfl, _⟩ <;> simp [hi]
  | confirmed hi hbook hbuffer hserver hdownstream =>
      rcases hserver with rfl | ⟨rfl, _⟩ <;> simp [hi]

theorem Lockstep.rank_lt (hlockstep : Lockstep setting s)
    (hstep : Confirmations.step setting s action = some t) :
    rank setting t < rank setting s := by
  rcases hlockstep.round_lt with ⟨hread, hputs, hecho⟩
  cases action with
  | clientWrite =>
      simp only [Confirmations.step, stepClientWrite] at hstep
      split_ifs at hstep with hclient hround
      split at hstep
      · split_ifs at hstep <;> cases hstep <;>
        simp only [rank, hclient, clientRank] <;> omega
      · cases hstep
  | clientRead count =>
      simp only [Confirmations.step, stepClientRead] at hstep
      split_ifs at hstep with hclient <;> cases hstep <;>
      · have hlt := hread hclient
        simp only [rank, hclient, clientRank]
        omega
  | clientPuts =>
      simp only [Confirmations.step] at hstep
      split at hstep
      · rename_i buffer hclient
        cases hstep
        have hlt := hputs buffer hclient
        simp only [rank, stepClientPuts, hclient, clientRank]
        omega
      · cases hstep
  | clientClose =>
      simp only [Confirmations.step] at hstep
      split_ifs at hstep with hclose
      cases hstep
      simp only [rank, hclose.1, clientRank]
      omega
  | serverRead count =>
      simp only [Confirmations.step, stepServerRead] at hstep
      split_ifs at hstep with hserver hround <;> cases hstep <;>
      simp only [rank, hserver, serverRank] <;> omega
  | serverEcho =>
      simp only [Confirmations.step] at hstep
      split at hstep
      · rename_i buffer hserver
        cases hstep
        have hlt := hecho buffer hserver
        simp only [rank, stepServerEcho, hserver, serverRank]
        omega
      · cases hstep
  | serverClose =>
      simp only [Confirmations.step] at hstep
      split_ifs at hstep with hclose
      cases hstep
      simp only [rank, hclose.1, serverRank]
      omega

theorem bounded (setting : Setting) :
    Protocol.Bounded (protocol setting) (ReadsWhole setting)
      (fun _ => Waits setting) (fun _ => Lockstep setting) (fun _ => True)
      (rank setting) (fun _ => 5 * setting.conversationLen + 2) where
  waiting := fun hwaits _ _ hstep => hwaits.1.rank_lt hstep
  serving := fun hlockstep _ hstep => hlockstep.rank_lt hstep
  load := fun _ _ => le_refl _
  bound := fun _ => rank_le setting _

/-- Any number of clients connect to the server of `sockets/server.c`, in any
interleaving with its conversations, and every `read` returns the whole
message.  The clients are served in the order in which they have connected,
what each of them prints are its titles, and the number of steps is bounded by
the number of clients.  When no step is possible any more, all have been
served, and each has printed all of its titles. -/
theorem clients_confirmed {labels : List (IterativeServers.Label Action)}
    {system : IterativeServers.State State Unit}
    (hwhole : StepsMeet (protocol setting).systemStep
      (Protocol.Admits (ReadsWhole setting)) listening labels)
    (hrun : run (protocol setting).systemStep listening labels = some system) :
    system.connected = Protocol.arrivals labels ∧
    (∀ client ∈ system.connected,
      Confirms setting (system.sessions client)) ∧
    labels.countP (fun label => !Protocol.Label.isConnect label) ≤
      (5 * setting.conversationLen + 3) * (Protocol.arrivals labels).length ∧
    (Protocol.Stuck (protocol setting) (ReadsWhole setting) system →
      system.finished = Protocol.arrivals labels ∧
      ∀ client ∈ Protocol.arrivals labels,
        (system.sessions client).client = .exited ∧
        (system.sessions client).confirmations =
          setting.titles.take setting.conversationLen) := by
  have hsound := (rules setting).run trivial hwhole hrun
  have hconnected : system.connected = Protocol.arrivals labels :=
    Protocol.connected_of_run hrun
  have hlockstep : ∀ client ∈ system.connected,
      Lockstep setting (system.sessions client) := by
    intro client _
    by_cases hfinished : client ∈ system.finished
    · exact (hsound.served client hfinished).1
    · by_cases hserving : system.serving = some client
      · exact (hsound.serving client hserving).1
      · exact (hsound.waiting client hfinished hserving).1
  refine ⟨hconnected, fun client hmem => (hlockstep client hmem).confirms,
    ?_, ?_⟩
  · have hinitial : Protocol.Sound (protocol setting) (fun _ => Waits setting)
        (fun _ => Lockstep setting) (fun _ => True) listening :=
      (rules setting).initial trivial
    have hbound := (bounded setting).run (rules setting) hinitial hwhole hrun
    have hstart : Protocol.potential (rank setting) listening = 0 := rfl
    rw [hstart, List.map_const', List.sum_replicate, smul_eq_mul,
      Nat.mul_comm] at hbound
    exact (Nat.le_add_left _ _).trans (hbound.trans (Nat.zero_add _).le)
  · intro hstuck
    rcases hstuck.all_exited (progress setting) hsound with ⟨hall, hexited⟩
    refine ⟨hall.trans hconnected, ?_⟩
    intro client hmem
    rw [← hconnected] at hmem
    have hend := hexited client hmem
    exact ⟨hend, (hlockstep client hmem).confirms.complete hend⟩

/-- The second client writes its first title while the first one is served. -/
def twoClients : List (IterativeServers.Label Action) :=
  [.connect 0, .connect 1, .client 1 .clientWrite, .accept,
    .client 0 .clientWrite, .server (.serverRead 13), .server .serverEcho,
    .client 0 (.clientRead 257), .client 0 .clientPuts,
    .client 0 .clientWrite, .server (.serverRead 19), .server .serverEcho,
    .client 0 (.clientRead 257), .client 0 .clientPuts,
    .client 0 .clientWrite, .server (.serverRead 22), .server .serverEcho,
    .server .serverClose, .client 0 (.clientRead 257), .accept,
    .server (.serverRead 13), .client 0 .clientPuts, .server .serverEcho,
    .client 1 (.clientRead 257)]

theorem clients_confirmed_two :
    ∃ system, run (protocol sockSetting).systemStep listening twoClients =
        some system ∧
      system.connected = [0, 1] ∧
      ∀ client ∈ system.connected,
        Confirms sockSetting (system.sessions client) := by
  have hwhole : StepsMeet (protocol sockSetting).systemStep
      (Protocol.Admits (ReadsWhole sockSetting)) listening twoClients := by
    decide +kernel
  refine exists_run_and (by decide +kernel) fun system hrun => ?_
  have hconfirmed := clients_confirmed hwhole hrun
  exact ⟨hconfirmed.1, hconfirmed.2.1⟩

end Miscellaneous.Confirmations
