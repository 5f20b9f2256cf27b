import Miscellaneous.MessageQueue
import Mathlib.Tactic

/-!
# No message lost, doubled or overtaken by one of its type

Every type has a line of its own in a queue.  In every interleaving of
senders and receivers the messages of a type which were accepted are those
which have been received, in the order in which they were sent, and then those
which are still there.  A receiver may have trouble, but what it gets has the
type it asked for.
-/

namespace Miscellaneous.MessageQueue

open GuardedRuns TypedQueues

variable {Pid : Type*}

/-- A message which a process has put into a queue or taken out of it. -/
structure Transfer (Pid : Type*) where
  pid : Pid
  qid : ℕ
  message : QueuedMessage

structure Log (Pid : Type*) where
  puts : List (Transfer Pid)
  gots : List (Transfer Pid)

def Log.empty : Log Pid := ⟨[], []⟩

def Log.put (transfer : Transfer Pid) : Log Pid := ⟨[transfer], []⟩

def Log.got (transfer : Transfer Pid) : Log Pid := ⟨[], [transfer]⟩

def Log.append (log done : Log Pid) : Log Pid :=
  ⟨log.puts ++ done.puts, log.gots ++ done.gots⟩

/-- What a step puts into a queue or takes out of it. -/
def transfers (qbytes : ℕ) (s : State Pid) : Action Pid → Log Pid
  | .call pid =>
      match s.processes pid with
      | .sending qid i =>
          match messages[i]? with
          | some message =>
              if (s.queues qid).Accepts qbytes then .put ⟨pid, qid, message⟩
              else .empty
          | none => .empty
      | .receiving qid received =>
          match types[received.length]? with
          | some type =>
              match (s.queues qid).msgrcv type with
              | some taken => .got ⟨pid, qid, taken.1⟩
              | none => .empty
          | none => .empty
      | .start _ | .exited _ | .failed _ => .empty
  | .refuse _ => .empty

def note (qbytes : ℕ) (log : Log Pid) (s : State Pid)
    (action : Action Pid) : Log Pid :=
  log.append (transfers qbytes s action)

/-- The messages of the transfers through one queue. -/
def through (qid : ℕ) (transfers : List (Transfer Pid)) :
    List QueuedMessage :=
  (transfers.filter fun transfer => transfer.qid = qid).map Transfer.message

/-- The messages of the transfers of one process. -/
def ofProcess [DecidableEq Pid] (pid : Pid) (transfers : List (Transfer Pid)) :
    List QueuedMessage :=
  (transfers.filter fun transfer => transfer.pid = pid).map Transfer.message

@[simp] theorem through_append (qid : ℕ)
    (transfers more : List (Transfer Pid)) :
    through qid (transfers ++ more) =
      through qid transfers ++ through qid more := by
  simp [through]

theorem through_singleton (qid : ℕ) (transfer : Transfer Pid) :
    through qid [transfer] =
      if transfer.qid = qid then [transfer.message] else [] := by
  by_cases hqid : transfer.qid = qid <;> simp [through, hqid]

@[simp] theorem ofProcess_append [DecidableEq Pid] (pid : Pid)
    (transfers more : List (Transfer Pid)) :
    ofProcess pid (transfers ++ more) =
      ofProcess pid transfers ++ ofProcess pid more := by
  simp [ofProcess]

@[simp] theorem ofProcess_nil [DecidableEq Pid] (pid : Pid) :
    ofProcess pid ([] : List (Transfer Pid)) = [] := rfl

theorem ofProcess_singleton [DecidableEq Pid] (pid : Pid)
    (transfer : Transfer Pid) :
    ofProcess pid [transfer] =
      if transfer.pid = pid then [transfer.message] else [] := by
  by_cases hpid : transfer.pid = pid <;> simp [ofProcess, hpid]

@[simp] theorem puts_append (log done : Log Pid) :
    (log.append done).puts = log.puts ++ done.puts := rfl

@[simp] theorem gots_append (log done : Log Pid) :
    (log.append done).gots = log.gots ++ done.gots := rfl

@[simp] theorem append_empty (log : Log Pid) : log.append .empty = log := by
  simp [Log.append, Log.empty]

/-! ## What a step can do -/

theorem msgrcv_eq_some {queue rest : Queue} {type : ℕ}
    {message : QueuedMessage} :
    queue.msgrcv type = some (message, rest) ↔
      queue.removed = false ∧ ∃ left,
        take type queue.messages = some (message, left) ∧
          rest = { queue with messages := left } := by
  unfold Queue.msgrcv
  cases queue with
  | mk messages removed =>
      cases removed with
      | true => simp
      | false =>
          simp only [Bool.false_eq_true, if_false, Option.map_eq_some_iff,
            Prod.mk.injEq, true_and]
          constructor
          · rintro ⟨⟨taken, left⟩, htake, rfl, rfl⟩
            exact ⟨left, htake, rfl⟩
          · rintro ⟨left, htake, rfl⟩
            exact ⟨(message, left), htake, rfl, rfl⟩

variable [DecidableEq Pid]

/-- The steps, with what each puts into a queue or takes out of it. -/
inductive Steps (qbytes : ℕ) (s : State Pid) (pid : Pid) :
    State Pid → Log Pid → Prop
  | join {program : Program} {qid : ℕ}
      (hprocess : s.processes pid = .start program)
      (hqid : s.qid = some qid) :
      Steps qbytes s pid (s.move pid (program.run qid)) .empty
  | create {program : Program}
      (hprocess : s.processes pid = .start program) (hqid : s.qid = none) :
      Steps qbytes s pid
        ({ s with created := s.created + 1, qid := some s.created }.move pid
          (program.run s.created)) .empty
  | refuse {program : Program} (hprocess : s.processes pid = .start program) :
      Steps qbytes s pid (s.move pid (.failed [])) .empty
  | put {qid i : ℕ} {message : QueuedMessage}
      (hprocess : s.processes pid = .sending qid i)
      (hmessage : messages[i]? = some message)
      (haccepts : (s.queues qid).Accepts qbytes) :
      Steps qbytes s pid
        ((s.setQueue qid { s.queues qid with
          messages := (s.queues qid).messages ++ [message] }).move pid
            (.sending qid (i + 1))) (.put ⟨pid, qid, message⟩)
  | leaveOut {qid i : ℕ} {message : QueuedMessage}
      (hprocess : s.processes pid = .sending qid i)
      (hmessage : messages[i]? = some message)
      (haccepts : ¬(s.queues qid).Accepts qbytes) :
      Steps qbytes s pid (s.move pid (.sending qid (i + 1))) .empty
  | sentAll {qid i : ℕ} (hprocess : s.processes pid = .sending qid i)
      (hall : messages[i]? = none) :
      Steps qbytes s pid (s.move pid (.exited [])) .empty
  | got {qid type : ℕ} {received : List (Option QueuedMessage)}
      {message : QueuedMessage} {left : List QueuedMessage}
      (hprocess : s.processes pid = .receiving qid received)
      (htype : types[received.length]? = some type)
      (hremoved : (s.queues qid).removed = false)
      (htake : take type (s.queues qid).messages = some (message, left)) :
      Steps qbytes s pid
        ((s.setQueue qid { s.queues qid with messages := left }).move pid
          (.receiving qid (received ++ [some message])))
        (.got ⟨pid, qid, message⟩)
  | trouble {qid type : ℕ} {received : List (Option QueuedMessage)}
      (hprocess : s.processes pid = .receiving qid received)
      (htype : types[received.length]? = some type)
      (hnone : (s.queues qid).msgrcv type = none) :
      Steps qbytes s pid
        (s.move pid (.receiving qid (received ++ [none]))) .empty
  | remove {qid : ℕ} {received : List (Option QueuedMessage)}
      (hprocess : s.processes pid = .receiving qid received)
      (hall : types[received.length]? = none)
      (hremoved : (s.queues qid).removed = false) :
      Steps qbytes s pid
        ({ s.setQueue qid { s.queues qid with removed := true } with
          qid := none }.move pid (.exited received)) .empty
  | notRemoved {qid : ℕ} {received : List (Option QueuedMessage)}
      (hprocess : s.processes pid = .receiving qid received)
      (hall : types[received.length]? = none)
      (hremoved : (s.queues qid).removed = true) :
      Steps qbytes s pid (s.move pid (.failed received)) .empty

def Action.pid : Action Pid → Pid
  | .call pid | .refuse pid => pid

theorem steps_of_step {qbytes : ℕ} {s next : State Pid}
    {action : Action Pid} (hstep : step qbytes s action = some next) :
    Steps qbytes s action.pid next (transfers qbytes s action) := by
  cases action with
  | refuse pid =>
      cases hprocess : s.processes pid with
      | start program =>
          simp only [step, hprocess, Option.some.injEq] at hstep
          exact hstep ▸ .refuse hprocess
      | _ => simp [step, hprocess] at hstep
  | call pid =>
      cases hprocess : s.processes pid with
      | start program =>
          simp only [step, hprocess, Option.some.injEq] at hstep
          subst hstep
          simp only [transfers, hprocess]
          unfold stepGet
          cases hqid : s.qid with
          | some qid => exact .join hprocess hqid
          | none => exact .create hprocess hqid
      | sending qid i =>
          simp only [step, hprocess, Option.some.injEq] at hstep
          subst hstep
          simp only [transfers, hprocess]
          unfold stepSender
          cases hmessage : messages[i]? with
          | none => simpa using .sentAll hprocess hmessage
          | some message =>
              by_cases haccepts : (s.queues qid).Accepts qbytes
              · simp only [Queue.msgsnd, haccepts, if_true]
                exact .put hprocess hmessage haccepts
              · have hsame : s.setQueue qid (s.queues qid) = s := by
                  simp [State.setQueue]
                simp only [Queue.msgsnd, haccepts, if_false, hsame]
                exact .leaveOut hprocess hmessage haccepts
      | receiving qid received =>
          simp only [step, hprocess, Option.some.injEq] at hstep
          subst hstep
          simp only [transfers, hprocess]
          unfold stepReceiver
          cases htype : types[received.length]? with
          | none =>
              unfold stepRemove
              cases hremoved : (s.queues qid).removed with
              | true => exact .notRemoved hprocess htype hremoved
              | false => exact .remove hprocess htype hremoved
          | some type =>
              cases hreceived : (s.queues qid).msgrcv type with
              | none => simpa [hreceived] using .trouble hprocess htype hreceived
              | some taken =>
                  obtain ⟨message, rest⟩ := taken
                  obtain ⟨hremoved, left, htake, rfl⟩ :=
                    msgrcv_eq_some.mp hreceived
                  simpa [hreceived, Action.pid] using
                    Steps.got hprocess htype hremoved htake
      | exited received => simp [step, hprocess] at hstep
      | failed received => simp [step, hprocess] at hstep

/-! ## The account of the messages -/

@[simp] theorem queues_move (s : State Pid) (pid : Pid) (process : Process) :
    (s.move pid process).queues = s.queues := rfl

@[simp] theorem qid_move (s : State Pid) (pid : Pid) (process : Process) :
    (s.move pid process).qid = s.qid := rfl

@[simp] theorem processes_move (s : State Pid) (pid : Pid)
    (process : Process) :
    (s.move pid process).processes =
      Function.update s.processes pid process := rfl

omit [DecidableEq Pid] in
@[simp] theorem queues_setQueue (s : State Pid) (qid : ℕ) (queue : Queue) :
    (s.setQueue qid queue).queues = Function.update s.queues qid queue := rfl

omit [DecidableEq Pid] in
@[simp] theorem processes_setQueue (s : State Pid) (qid : ℕ)
    (queue : Queue) : (s.setQueue qid queue).processes = s.processes := rfl

/-- What a queue still has of a type comes after what has been received. -/
def QueuesAccounted (s : State Pid) (log : Log Pid) : Prop :=
  ∀ qid type, ofKind type (through qid log.puts) =
    ofKind type (through qid log.gots) ++
      ofKind type (s.queues qid).messages

/-- The messages before this position are those that a sender has been
through. -/
def Process.position : Process → ℕ
  | .sending _ i => i
  | .exited _ => messages.length
  | .start _ | .receiving _ _ | .failed _ => 0

/-- What a receiver has got is of the types it asked for. -/
def Asked (received : List (Option QueuedMessage)) : Prop :=
  ∀ (n : ℕ) (message : QueuedMessage), received[n]? = some (some message) →
    types[n]? = some message.kind

structure ProcessAccounted (log : Log Pid) (pid : Pid) (process : Process) :
    Prop where
  sent : (ofProcess pid log.puts).Sublist (messages.take process.position)
  received : ofProcess pid log.gots = process.received.filterMap id
  asked : Asked process.received

structure Accounted (s : State Pid) (log : Log Pid) : Prop where
  queues : QueuesAccounted s log
  processes : ∀ pid, ProcessAccounted log pid (s.processes pid)

omit [DecidableEq Pid] in
theorem QueuesAccounted.of_same_messages {s next : State Pid}
    {log : Log Pid} (hs : QueuesAccounted s log)
    (hqueues : ∀ qid, (next.queues qid).messages = (s.queues qid).messages) :
    QueuesAccounted next log := by
  intro qid type
  rw [hqueues, hs]

theorem Steps.queuesAccounted {qbytes : ℕ} {s next : State Pid} {pid : Pid}
    {log done : Log Pid} (hsteps : Steps qbytes s pid next done)
    (hs : QueuesAccounted s log) : QueuesAccounted next (log.append done) := by
  cases hsteps with
  | @put qid i message hprocess hmessage haccepts =>
      intro other type
      by_cases hother : qid = other
      · subst hother
        simp [Log.put, through_singleton, hs qid type]
      · simpa [Log.put, through_singleton, hother, Ne.symm hother]
          using hs other type
  | @got qid type received message left hprocess htype hremoved htake =>
      intro other kind
      by_cases hother : qid = other
      · subst hother
        have hof := (ofKind_of_take htake).2 kind
        rw [ofKind_cons] at hof
        simp [Log.got, through_singleton, hs qid kind, hof]
      · simpa [Log.got, through_singleton, hother, Ne.symm hother]
          using hs other kind
  | @remove qid received hprocess hall hremoved =>
      rw [append_empty]
      refine hs.of_same_messages fun other => ?_
      by_cases hother : other = qid
      · subst hother
        simp
      · simp [hother]
  | _ =>
      rw [append_empty]
      exact hs.of_same_messages fun _ => rfl

theorem Asked.concat {received : List (Option QueuedMessage)}
    (hasked : Asked received) {type : ℕ}
    (htype : types[received.length]? = some type)
    {answer : Option QueuedMessage}
    (hanswer : ∀ message, answer = some message → message.kind = type) :
    Asked (received ++ [answer]) := by
  intro n message hmessage
  rcases lt_trichotomy n received.length with hlt | rfl | hgt
  · rw [List.getElem?_append_left hlt] at hmessage
    exact hasked n message hmessage
  · rw [List.getElem?_concat_length, Option.some.injEq] at hmessage
    rw [htype, hanswer message hmessage]
  · rw [List.getElem?_eq_none (by simpa using hgt)] at hmessage
    cases hmessage

/-- A process which puts nothing down and receives nothing keeps its
account. -/
theorem ProcessAccounted.advance {log : Log Pid} {pid : Pid}
    {process next : Process} (hprocess : ProcessAccounted log pid process)
    (hposition : (messages.take process.position).Sublist
      (messages.take next.position))
    (hreceived : next.received = process.received) :
    ProcessAccounted log pid next where
  sent := hprocess.sent.trans hposition
  received := by rw [hprocess.received, hreceived]
  asked := hreceived ▸ hprocess.asked

theorem received_run (program : Program) (qid : ℕ) :
    (program.run qid).received = [] := by
  cases program <;> rfl

/-- The other processes have no part in a step. -/
theorem Steps.other {qbytes : ℕ} {s next : State Pid} {pid other : Pid}
    {done : Log Pid} (hsteps : Steps qbytes s pid next done)
    (hother : other ≠ pid) :
    next.processes other = s.processes other ∧
      ofProcess other done.puts = [] ∧ ofProcess other done.gots = [] := by
  cases hsteps <;>
    simp [hother, Ne.symm hother, Log.put, Log.got, Log.empty,
      ofProcess_singleton]

theorem Steps.self {qbytes : ℕ} {s next : State Pid} {pid : Pid}
    {log done : Log Pid} (hsteps : Steps qbytes s pid next done)
    (hs : ProcessAccounted log pid (s.processes pid)) :
    ProcessAccounted (log.append done) pid (next.processes pid) := by
  cases hsteps with
  | @join program qid hprocess hqid =>
      rw [hprocess] at hs
      rw [append_empty]
      refine hs.advance (List.nil_sublist _) ?_
      rw [processes_move, Function.update_self]
      exact received_run program qid
  | @create program hprocess hqid =>
      rw [hprocess] at hs
      rw [append_empty]
      refine hs.advance (List.nil_sublist _) ?_
      rw [processes_move, Function.update_self]
      exact received_run program s.created
  | @refuse program hprocess =>
      rw [hprocess] at hs
      rw [append_empty]
      refine hs.advance ?_ ?_
      · simp [Process.position]
      · simp [Process.received]
  | @put qid i message hprocess hmessage haccepts =>
      rw [hprocess] at hs
      refine ⟨?_, ?_, ?_⟩
      · simpa [Log.put, ofProcess_singleton, Process.position,
          List.take_add_one, hmessage] using hs.sent
      · simpa [Log.put, Process.received] using hs.received
      · simpa [Process.received] using hs.asked
  | @leaveOut qid i message hprocess hmessage haccepts =>
      rw [hprocess] at hs
      rw [append_empty]
      refine hs.advance ?_ ?_
      · have hmore : (messages.take i).Sublist (messages.take (i + 1)) :=
          List.take_sublist_take_left (Nat.le_succ i)
        simpa [Process.position] using hmore
      · simp [Process.received]
  | @sentAll qid i hprocess hall =>
      rw [hprocess] at hs
      rw [append_empty]
      refine hs.advance ?_ ?_
      · simpa [Process.position] using List.take_sublist i messages
      · simp [Process.received]
  | @got qid type received message left hprocess htype hremoved htake =>
      rw [hprocess] at hs
      have hkind := (ofKind_of_take htake).1
      refine ⟨?_, ?_, ?_⟩
      · simpa [Log.got, Process.position] using hs.sent
      · simpa [Log.got, ofProcess_singleton, Process.received]
          using hs.received
      · simpa [Process.received] using
          hs.asked.concat htype fun other hother => by
            rw [← Option.some.inj hother, hkind]
  | @trouble qid type received hprocess htype hnone =>
      rw [hprocess] at hs
      rw [append_empty]
      refine ⟨?_, ?_, ?_⟩
      · simpa [Process.position] using hs.sent
      · simpa [Process.received] using hs.received
      · simpa [Process.received] using
          hs.asked.concat htype fun other hother => by cases hother
  | @remove qid received hprocess hall hremoved =>
      rw [hprocess] at hs
      rw [append_empty]
      refine hs.advance ?_ ?_
      · simp [Process.position]
      · simp [Process.received]
  | @notRemoved qid received hprocess hall hremoved =>
      rw [hprocess] at hs
      rw [append_empty]
      refine hs.advance ?_ ?_
      · simp [Process.position]
      · simp [Process.received]

theorem ProcessAccounted.frame {log done : Log Pid} {pid : Pid}
    {process : Process} (hprocess : ProcessAccounted log pid process)
    (hputs : ofProcess pid done.puts = [])
    (hgots : ofProcess pid done.gots = []) :
    ProcessAccounted (log.append done) pid process where
  sent := by simpa [hputs] using hprocess.sent
  received := by simpa [hgots] using hprocess.received
  asked := hprocess.asked

theorem Steps.accounted {qbytes : ℕ} {s next : State Pid} {pid : Pid}
    {log done : Log Pid} (hsteps : Steps qbytes s pid next done)
    (hs : Accounted s log) : Accounted next (log.append done) where
  queues := hsteps.queuesAccounted hs.queues
  processes := by
    intro other
    by_cases hother : other = pid
    · subst hother
      exact hsteps.self (hs.processes other)
    · obtain ⟨hprocess, hputs, hgots⟩ := hsteps.other hother
      rw [hprocess]
      exact (hs.processes other).frame hputs hgots

theorem initial_accounted (programs : Pid → Program) :
    Accounted (initial programs) .empty where
  queues := fun qid type => rfl
  processes := fun pid => {
    sent := List.nil_sublist _
    received := rfl
    asked := by
      intro n message hmessage
      simp [initial, Process.received] at hmessage }

theorem step_recording_accounted {qbytes : ℕ} (entry : State Pid × Log Pid)
    (action : Action Pid) (next : State Pid × Log Pid)
    (hentry : Accounted entry.1 entry.2)
    (hstep : recording (step qbytes) (note qbytes) entry action = some next) :
    Accounted next.1 next.2 := by
  obtain ⟨hnext, hlog⟩ := recording_eq_some.mp hstep
  rw [hlog]
  exact (steps_of_step hnext).accounted hentry

/-- In every interleaving of senders and receivers: of each queue and type,
what was accepted is what was received, in order, followed by what is left;
a sender's messages come in its order; and a receiver has what the queue gave
it, of the types it asked for. -/
theorem messages_in_order {qbytes : ℕ} {programs : Pid → Program}
    {actions : List (Action Pid)} {final : State Pid} {log : Log Pid}
    (hrun : run (recording (step qbytes) (note qbytes))
      (initial programs, .empty) actions = some (final, log)) :
    (∀ qid type, ofKind type (through qid log.puts) =
      ofKind type (through qid log.gots) ++
        ofKind type (final.queues qid).messages) ∧
    (∀ pid, (ofProcess pid log.puts).Sublist messages) ∧
    ∀ pid, ofProcess pid log.gots =
        (final.processes pid).received.filterMap id ∧
      ∀ (n : ℕ) (message : QueuedMessage),
        (final.processes pid).received[n]? = some (some message) →
          types[n]? = some message.kind := by
  have haccounted : Accounted final log :=
    run_invariant (P := fun entry => Accounted entry.1 entry.2)
      step_recording_accounted (initial_accounted programs) hrun
  refine ⟨haccounted.queues, fun pid => ?_, fun pid => ?_⟩
  · exact (haccounted.processes pid).sent.trans (List.take_sublist _ _)
  · exact ⟨(haccounted.processes pid).received,
      (haccounted.processes pid).asked⟩

theorem messages_in_order_two :
    ∃ entry, run (recording (step 16384) (note 16384))
        (initial fun pid => if pid then .sender else .receiver, .empty)
        [.call true, .call true, .call false, .call false, .call true,
          .call false] = some entry ∧
      ∀ qid type, ofKind type (through qid entry.2.puts) =
        ofKind type (through qid entry.2.gots) ++
          ofKind type (entry.1.queues qid).messages :=
  exists_run_and (by decide) fun _ hrun => (messages_in_order hrun).1

end Miscellaneous.MessageQueue
