import Miscellaneous.GuardedRuns
import Mathlib.Logic.Function.Basic
import Mathlib.Tactic

/-!
# Servers that serve one client after the other

A server accepts a connection, holds one conversation over it, closes it and
accepts the next one.  The conversation with a single client is given as a
step function, with the actions that are the server's; what the server's
memory takes from one conversation into the next is a parameter, too.  The
clients that have connected go on by themselves, also while they wait.

What holds in every conversation with one client holds for all clients of such
a server, and the clients are served in the order in which they have connected.
-/

namespace IterativeServers

open GuardedRuns

variable {Session Action Memory : Type*}

/-- The conversation with one client. -/
structure Protocol (Session Action Memory : Type*) where
  step : Session → Action → Option Session
  isServer : Action → Bool
  closed : Session → Bool
  load : Memory → Session → Session
  save : Session → Memory

structure State (Session Memory : Type*) where
  sessions : ℕ → Session
  queue : List ℕ
  serving : Option ℕ
  finished : List ℕ
  memory : Memory

inductive Label (Action : Type*) where
  | connect (client : ℕ)
  | accept
  | client (client : ℕ) (action : Action)
  | server (action : Action)
  deriving DecidableEq

def initial (start : ℕ → Session) (memory : Memory) : State Session Memory where
  sessions := start
  queue := []
  serving := none
  finished := []
  memory := memory

/-- The clients that have connected, in this order. -/
def State.connected (s : State Session Memory) : List ℕ :=
  s.finished ++ s.serving.toList ++ s.queue

def State.setSession (s : State Session Memory) (client : ℕ)
    (session : Session) : State Session Memory :=
  { s with sessions := Function.update s.sessions client session }

theorem State.setSession_sessions (s : State Session Memory)
    (client other : ℕ) (session : Session) :
    (s.setSession client session).sessions other =
      if other = client then session else s.sessions other := by
  simp [State.setSession, Function.update_apply]

namespace Protocol

variable (protocol : Protocol Session Action Memory)

def stepConnect (s : State Session Memory) (client : ℕ) :
    Option (State Session Memory) :=
  if client ∈ s.connected then none
  else some { s with queue := s.queue ++ [client] }

def stepAccept (s : State Session Memory) : Option (State Session Memory) :=
  match s.serving, s.queue with
  | none, client :: queue =>
      some { s.setSession client
          (protocol.load s.memory (s.sessions client)) with
        queue := queue
        serving := some client }
  | none, [] => none
  | some _, _ => none

def stepClient (s : State Session Memory) (client : ℕ) (action : Action) :
    Option (State Session Memory) :=
  if client ∈ s.connected ∧ protocol.isServer action = false then
    (protocol.step (s.sessions client) action).map (s.setSession client)
  else none

/-- The state with a new step of the conversation that the server holds. -/
def afterServer (s : State Session Memory) (client : ℕ) (session : Session) :
    State Session Memory :=
  if protocol.closed session then
    { s.setSession client session with
      serving := none
      finished := s.finished ++ [client]
      memory := protocol.save session }
  else s.setSession client session

def stepServer (s : State Session Memory) (action : Action) :
    Option (State Session Memory) :=
  match s.serving with
  | some client =>
      if protocol.isServer action then
        (protocol.step (s.sessions client) action).map
          (protocol.afterServer s client)
      else none
  | none => none

def systemStep (s : State Session Memory) :
    Label Action → Option (State Session Memory)
  | .connect client => stepConnect s client
  | .accept => protocol.stepAccept s
  | .client client action => protocol.stepClient s client action
  | .server action => protocol.stepServer s action

/-- What one step of the system can do, with the guards it passed. -/
inductive Move (s : State Session Memory) :
    Label Action → State Session Memory → Prop where
  | connect {client : ℕ} (hnew : client ∉ s.connected) :
      Move s (.connect client) { s with queue := s.queue ++ [client] }
  | accept {client : ℕ} {queue : List ℕ} (hserving : s.serving = none)
      (hqueue : s.queue = client :: queue) :
      Move s .accept
        { s.setSession client (protocol.load s.memory (s.sessions client)) with
          queue := queue
          serving := some client }
  | client {client : ℕ} {action : Action} {session : Session}
      (hconnected : client ∈ s.connected)
      (hside : protocol.isServer action = false)
      (hstep : protocol.step (s.sessions client) action = some session) :
      Move s (.client client action) (s.setSession client session)
  | server {client : ℕ} {action : Action} {session : Session}
      (hserving : s.serving = some client)
      (hside : protocol.isServer action = true)
      (hstep : protocol.step (s.sessions client) action = some session) :
      Move s (.server action) (protocol.afterServer s client session)

variable {protocol} {s t : State Session Memory}

theorem systemStep_move {label : Label Action}
    (hstep : protocol.systemStep s label = some t) : protocol.Move s label t := by
  cases label with
  | connect client =>
      simp only [systemStep, stepConnect] at hstep
      split_ifs at hstep with hnew
      cases hstep
      exact .connect hnew
  | accept =>
      simp only [systemStep, stepAccept] at hstep
      split at hstep
      · rename_i client queue hserving hqueue
        cases hstep
        exact .accept hserving hqueue
      · cases hstep
      · cases hstep
  | client client action =>
      simp only [systemStep, stepClient] at hstep
      split_ifs at hstep with hguard
      rcases Option.map_eq_some_iff.mp hstep with ⟨session, hsession, rfl⟩
      exact .client hguard.1 hguard.2 hsession
  | server action =>
      simp only [systemStep, stepServer] at hstep
      split at hstep
      · rename_i client hserving
        split_ifs at hstep with hside
        rcases Option.map_eq_some_iff.mp hstep with ⟨session, hsession, rfl⟩
        exact .server hserving hside hsession
      · cases hstep

/-! ## The order of service -/

/-- The clients that connect in a run, in order. -/
def arrivals : List (Label Action) → List ℕ
  | [] => []
  | .connect client :: labels => client :: arrivals labels
  | .accept :: labels => arrivals labels
  | .client _ _ :: labels => arrivals labels
  | .server _ :: labels => arrivals labels

def Label.arrival : Label Action → List ℕ
  | .connect client => [client]
  | .accept => []
  | .client _ _ => []
  | .server _ => []

theorem arrivals_cons (label : Label Action) (labels : List (Label Action)) :
    arrivals (label :: labels) = Label.arrival label ++ arrivals labels := by
  cases label <;> rfl

theorem Move.connected {label : Label Action} (hmove : protocol.Move s label t) :
    t.connected = s.connected ++ Label.arrival label := by
  cases hmove with
  | connect _ => simp [State.connected, Label.arrival]
  | accept hserving hqueue =>
      simp [State.connected, Label.arrival, State.setSession, hserving, hqueue]
  | client _ _ _ =>
      simp [State.connected, Label.arrival, State.setSession]
  | server hserving _ _ =>
      unfold afterServer
      split_ifs <;>
      simp [State.connected, Label.arrival, State.setSession, hserving]

/-- The clients that were served, the one that is being served and those that
wait are, in this order, those that have connected. -/
theorem connected_of_run {labels : List (Label Action)}
    (hrun : run protocol.systemStep s labels = some t) :
    t.connected = s.connected ++ arrivals labels := by
  induction labels generalizing s with
  | nil =>
      rw [run_nil, Option.some.injEq] at hrun
      simp [hrun, arrivals]
  | cons label labels ih =>
      rcases run_cons_eq_some.mp hrun with ⟨next, hnext, hrest⟩
      rw [ih hrest, (systemStep_move hnext).connected, arrivals_cons,
        List.append_assoc]

/-! ## What holds in every conversation -/

/-- The step of a session meets the condition on the steps of a session. -/
def Admits (admits : Session → Action → Prop) (s : State Session Memory) :
    Label Action → Prop
  | .client client action => admits (s.sessions client) action
  | .server action => ∀ client ∈ s.serving, admits (s.sessions client) action
  | .connect _ => True
  | .accept => True

theorem admits_of_forall {admits : Session → Action → Prop}
    (hadmits : ∀ session action, admits session action)
    (s : State Session Memory) (label : Label Action) : Admits admits s label := by
  cases label with
  | connect _ => trivial
  | accept => trivial
  | client client action => exact hadmits (s.sessions client) action
  | server action => exact fun client _ => hadmits (s.sessions client) action

instance {admits : Session → Action → Prop}
    [hadmits : ∀ session action, Decidable (admits session action)]
    (s : State Session Memory) : ∀ label, Decidable (Admits admits s label)
  | .client client action => hadmits (s.sessions client) action
  | .server action => inferInstanceAs
      (Decidable (∀ client ∈ s.serving, admits (s.sessions client) action))
  | .connect _ => isTrue trivial
  | .accept => isTrue trivial

/-- What is to be shown about the conversation with one client: `waits` holds
of a session which the server has not accepted, and `serves` of every other
one. -/
structure Rules (protocol : Protocol Session Action Memory)
    (admits : Session → Action → Prop) (start : ℕ → Session)
    (waits serves : ℕ → Session → Prop) (remembers : Memory → Prop) :
    Prop where
  start : ∀ client, waits client (start client)
  client : ∀ {client session action next}, waits client session →
    protocol.isServer action = false → admits session action →
    protocol.step session action = some next → waits client next
  load : ∀ {client session memory}, waits client session → remembers memory →
    serves client (protocol.load memory session)
  step : ∀ {client session action next}, serves client session →
    admits session action → protocol.step session action = some next →
    serves client next
  save : ∀ {client session}, serves client session →
    remembers (protocol.save session)
  loadOpen : ∀ {client session memory}, waits client session →
    protocol.closed (protocol.load memory session) = false
  clientClosed : ∀ {session action next}, protocol.isServer action = false →
    protocol.step session action = some next →
    protocol.closed next = protocol.closed session

structure Sound (protocol : Protocol Session Action Memory)
    (waits serves : ℕ → Session → Prop) (remembers : Memory → Prop)
    (s : State Session Memory) : Prop where
  nodup : s.connected.Nodup
  waiting : ∀ client, client ∉ s.finished → s.serving ≠ some client →
    waits client (s.sessions client)
  served : ∀ client ∈ s.finished,
    serves client (s.sessions client) ∧
      protocol.closed (s.sessions client) = true
  serving : ∀ client, s.serving = some client →
    serves client (s.sessions client) ∧
      protocol.closed (s.sessions client) = false
  memory : remembers s.memory

variable {admits : Session → Action → Prop} {start : ℕ → Session}
  {waits serves : ℕ → Session → Prop} {remembers : Memory → Prop}

theorem Rules.initial
    (hrules : Rules protocol admits start waits serves remembers)
    {memory : Memory} (hmemory : remembers memory) :
    Sound protocol waits serves remembers (initial start memory) where
  nodup := List.nodup_nil
  waiting := fun client _ _ => hrules.start client
  served := by simp [IterativeServers.initial]
  serving := by simp [IterativeServers.initial]
  memory := hmemory

/-- The server has not yet accepted the first client in the queue. -/
theorem Sound.head_new (hsound : Sound protocol waits serves remembers s)
    {client : ℕ} {queue : List ℕ} (hserving : s.serving = none)
    (hqueue : s.queue = client :: queue) : client ∉ s.finished := by
  have hconnected := hsound.nodup
  simp only [State.connected, hserving, hqueue, Option.toList_none,
    List.append_nil] at hconnected
  intro hmem
  exact (List.nodup_append.mp hconnected).2.2 client hmem client (by simp) rfl

theorem Sound.head_waits (hsound : Sound protocol waits serves remembers s)
    {client : ℕ} {queue : List ℕ} (hserving : s.serving = none)
    (hqueue : s.queue = client :: queue) : waits client (s.sessions client) :=
  hsound.waiting client (hsound.head_new hserving hqueue) (by simp [hserving])

theorem Rules.accept
    (hrules : Rules protocol admits start waits serves remembers)
    (hsound : Sound protocol waits serves remembers s) {client : ℕ}
    {queue : List ℕ} (hserving : s.serving = none)
    (hqueue : s.queue = client :: queue) (hnodup : t.connected.Nodup)
    (ht : t = { s.setSession client
        (protocol.load s.memory (s.sessions client)) with
      queue := queue, serving := some client }) :
    Sound protocol waits serves remembers t := by
  subst ht
  have hnew := hsound.head_new hserving hqueue
  have hwaits := hsound.head_waits hserving hqueue
  refine ⟨hnodup, ?_, ?_, ?_, hsound.memory⟩
  · intro other hother hne
    have hoc : other ≠ client := fun h => hne (by rw [h])
    dsimp only
    rw [State.setSession_sessions, if_neg hoc]
    exact hsound.waiting other hother (by simp [hserving])
  · intro other hother
    have hoc : other ≠ client := by
      rintro rfl
      exact hnew hother
    dsimp only
    rw [State.setSession_sessions, if_neg hoc]
    exact hsound.served other hother
  · intro other hother
    obtain rfl : client = other := by simpa using hother
    dsimp only
    rw [State.setSession_sessions, if_pos rfl]
    exact ⟨hrules.load hwaits hsound.memory, hrules.loadOpen hwaits⟩

theorem Rules.clientMove
    (hrules : Rules protocol admits start waits serves remembers)
    (hsound : Sound protocol waits serves remembers s) {client : ℕ}
    {action : Action} {session : Session}
    (hside : protocol.isServer action = false)
    (hadmits : admits (s.sessions client) action)
    (hstep : protocol.step (s.sessions client) action = some session) :
    Sound protocol waits serves remembers (s.setSession client session) where
  nodup := hsound.nodup
  memory := hsound.memory
  waiting := by
    intro other hother hne
    rw [State.setSession_sessions]
    split_ifs with hoc
    · subst hoc
      exact hrules.client (hsound.waiting other hother hne) hside hadmits hstep
    · exact hsound.waiting other hother hne
  served := by
    intro other hother
    rw [State.setSession_sessions]
    split_ifs with hoc
    · subst hoc
      rcases hsound.served other hother with ⟨hserves, hclosed⟩
      exact ⟨hrules.step hserves hadmits hstep,
        (hrules.clientClosed hside hstep).trans hclosed⟩
    · exact hsound.served other hother
  serving := by
    intro other hother
    rw [State.setSession_sessions]
    split_ifs with hoc
    · subst hoc
      rcases hsound.serving other hother with ⟨hserves, hopen⟩
      exact ⟨hrules.step hserves hadmits hstep,
        (hrules.clientClosed hside hstep).trans hopen⟩
    · exact hsound.serving other hother

theorem Rules.serverMove
    (hrules : Rules protocol admits start waits serves remembers)
    (hsound : Sound protocol waits serves remembers s) {client : ℕ}
    {action : Action} {session : Session} (hserving : s.serving = some client)
    (hnodup : (protocol.afterServer s client session).connected.Nodup)
    (hadmits : admits (s.sessions client) action)
    (hstep : protocol.step (s.sessions client) action = some session) :
    Sound protocol waits serves remembers
      (protocol.afterServer s client session) := by
  have hserves : serves client session :=
    hrules.step (hsound.serving client hserving).1 hadmits hstep
  have hold : ∀ other, other ≠ client →
      (s.setSession client session).sessions other = s.sessions other := by
    intro other hoc
    rw [State.setSession_sessions, if_neg hoc]
  have hnew : (s.setSession client session).sessions client = session := by
    rw [State.setSession_sessions, if_pos rfl]
  have hnotFinished : client ∉ s.finished := by
    intro hmem
    have hopen := (hsound.serving client hserving).2
    rw [(hsound.served client hmem).2] at hopen
    contradiction
  refine ⟨hnodup, ?_, ?_, ?_, ?_⟩ <;> unfold afterServer <;>
    split_ifs with hclosed
  · intro other hother _
    have hoc : other ≠ client := by
      rintro rfl
      exact hother (by simp)
    rw [hold other hoc]
    exact hsound.waiting other (fun h => hother (by simp [h]))
      (by simp [hserving, Ne.symm hoc])
  · intro other hother hne
    have hoc : other ≠ client := by
      rintro rfl
      exact hne hserving
    rw [hold other hoc]
    exact hsound.waiting other hother hne
  · intro other hother
    rcases List.mem_append.mp hother with hmem | hmem
    · have hoc : other ≠ client := by
        rintro rfl
        exact hnotFinished hmem
      dsimp only
      rw [hold other hoc]
      exact hsound.served other hmem
    · obtain rfl : other = client := by simpa using hmem
      dsimp only
      rw [hnew]
      exact ⟨hserves, hclosed⟩
  · intro other hother
    have hoc : other ≠ client := by
      rintro rfl
      exact hnotFinished hother
    rw [hold other hoc]
    exact hsound.served other hother
  · intro other hother
    cases hother
  · intro other hother
    obtain rfl : client = other :=
      Option.some.inj (hserving.symm.trans hother)
    rw [hnew]
    exact ⟨hserves, by simpa using hclosed⟩
  · exact hrules.save hserves
  · exact hsound.memory

theorem Rules.systemStep
    (hrules : Rules protocol admits start waits serves remembers)
    {label : Label Action} (hadmits : Admits admits s label)
    (hsound : Sound protocol waits serves remembers s)
    (hstep : protocol.systemStep s label = some t) :
    Sound protocol waits serves remembers t := by
  have hmove := systemStep_move hstep
  have hconnected := hmove.connected
  cases hmove with
  | connect hnew =>
      refine ⟨?_, hsound.waiting, hsound.served, hsound.serving, hsound.memory⟩
      rw [hconnected]
      exact List.nodup_append.mpr ⟨hsound.nodup, by simp [Label.arrival],
        by
          intro other hother client hclient
          obtain rfl : client = _ := by simpa [Label.arrival] using hclient
          rintro rfl
          exact hnew hother⟩
  | accept hserving hqueue =>
      refine hrules.accept hsound hserving hqueue ?_ rfl
      rw [hconnected, Label.arrival, List.append_nil]
      exact hsound.nodup
  | client _ hside hsession =>
      exact hrules.clientMove hsound hside hadmits hsession
  | @server client action session hserving _ hsession =>
      refine hrules.serverMove hsound hserving ?_ (hadmits client hserving)
        hsession
      rw [hconnected, Label.arrival, List.append_nil]
      exact hsound.nodup

/-- What the rules say of each conversation holds of all clients, in every
run. -/
theorem Rules.run (hrules : Rules protocol admits start waits serves remembers)
    {memory : Memory} (hmemory : remembers memory)
    {labels : List (Label Action)}
    (hadmits : StepsMeet protocol.systemStep (Admits admits)
      (IterativeServers.initial start memory) labels)
    (hrun : GuardedRuns.run protocol.systemStep
      (IterativeServers.initial start memory) labels = some s) :
    Sound protocol waits serves remembers s :=
  run_invariant_of_stepsMeet
    (fun _ _ _ hadmitted hsound hstep =>
      hrules.systemStep hadmitted hsound hstep)
    hadmits (hrules.initial hmemory) hrun

end Protocol

end IterativeServers
