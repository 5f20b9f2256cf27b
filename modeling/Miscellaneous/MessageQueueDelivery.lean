import Miscellaneous.MessageQueueRuns
import Mathlib.Tactic

/-!
# A receiver after the senders

As long as no receiver is at work, the messages of every sender stand in the
queue in their order, and a queue with room for all of them accepts all of
them.  A receiver which starts after some sender is done then has no trouble,
whatever the other senders do in between: it asks for each type as often as a
sender has sent it.
-/

namespace Miscellaneous.MessageQueue

open GuardedRuns TypedQueues

variable {Pid : Type*} [DecidableEq Pid] {qbytes : ℕ}

/-- One receiver among senders. -/
def programsFor (receiver pid : Pid) : Program :=
  if pid = receiver then .receiver else .sender

/-- Where a sender of the queue 0 can be. -/
def Process.Sends : Process → Prop
  | .start program => program = .sender
  | .sending qid i => qid = 0 ∧ i ≤ messages.length
  | .exited received | .failed received => received = []
  | .receiving _ _ => False

structure Filling [Fintype Pid] (receiver : Pid) (s : State Pid) : Prop where
  named : s.qid.getD s.created = 0
  opened : (s.queues 0).removed = false
  waits : s.processes receiver = .start .receiver
  sends : ∀ pid, pid ≠ receiver → (s.processes pid).Sends
  kept : ∀ pid, (messages.take (s.processes pid).position).Sublist
    (s.queues 0).messages
  room : (s.queues 0).messages.length ≤ ∑ pid, (s.processes pid).position

theorem position_sending (qid i : ℕ) :
    (Process.sending qid i).position = i := rfl

theorem position_le_of_sends {process : Process} (hsends : process.Sends) :
    process.position ≤ messages.length := by
  cases process with
  | sending qid i => exact hsends.2
  | exited received => exact le_rfl
  | start program => exact Nat.zero_le _
  | failed received => exact Nat.zero_le _
  | receiving qid received => cases hsends

variable [Fintype Pid] {receiver : Pid} {s next : State Pid}

theorem initial_filling (receiver : Pid) :
    Filling receiver (initial (programsFor receiver)) where
  named := rfl
  opened := rfl
  waits := by simp [initial, programsFor]
  sends := by
    intro pid hpid
    simp [initial, programsFor, hpid, Process.Sends]
  kept := fun pid => List.nil_sublist _
  room := Nat.zero_le _

theorem Filling.position_le (hs : Filling receiver s) (pid : Pid) :
    (s.processes pid).position ≤ messages.length := by
  by_cases hpid : pid = receiver
  · rw [hpid, hs.waits]
    exact Nat.zero_le _
  · exact position_le_of_sends (hs.sends pid hpid)

theorem Filling.sum_le (hs : Filling receiver s) :
    ∑ pid, (s.processes pid).position ≤
      (Fintype.card Pid - 1) * messages.length := by
  have hreceiver : (s.processes receiver).position = 0 := by
    rw [hs.waits]
    rfl
  have hsenders := Finset.sum_le_card_nsmul (Finset.univ.erase receiver)
    (fun pid => (s.processes pid).position) messages.length
    fun pid _ => hs.position_le pid
  rw [Finset.card_erase_of_mem (Finset.mem_univ receiver), Finset.card_univ,
    smul_eq_mul] at hsenders
  rw [← Finset.add_sum_erase Finset.univ _ (Finset.mem_univ receiver),
    hreceiver, Nat.zero_add]
  exact hsenders

/-- A sender which stays where it is in its loop leaves the queue as it is. -/
theorem Filling.move (hs : Filling receiver s) {pid : Pid}
    (hpid : pid ≠ receiver) (process : Process)
    (hqueues : next.queues = s.queues)
    (hnamed : next.qid.getD next.created = 0)
    (hprocesses : next.processes = Function.update s.processes pid process)
    (hsends : process.Sends)
    (hposition : process.position = (s.processes pid).position) :
    Filling receiver next := by
  have hpositions : ∀ other, (next.processes other).position =
      (s.processes other).position := by
    intro other
    by_cases hother : other = pid
    · rw [hother, hprocesses, Function.update_self, hposition]
    · rw [hprocesses, Function.update_of_ne hother]
  refine ⟨hnamed, ?_, ?_, ?_, ?_, ?_⟩
  · rw [hqueues]
    exact hs.opened
  · rw [hprocesses, Function.update_of_ne hpid.symm]
    exact hs.waits
  · intro other hother
    by_cases hsame : other = pid
    · rwa [hsame, hprocesses, Function.update_self]
    · rw [hprocesses, Function.update_of_ne hsame]
      exact hs.sends other hother
  · intro other
    rw [hpositions, hqueues]
    exact hs.kept other
  · simp only [hpositions, hqueues]
    exact hs.room

theorem sum_position_update (processes : Pid → Process) (pid : Pid)
    (process : Process) :
    ∑ other, (Function.update processes pid process other).position +
        (processes pid).position =
      ∑ other, (processes other).position + process.position := by
  have hupdate : (fun other =>
      (Function.update processes pid process other).position) =
        Function.update (fun other => (processes other).position) pid
          process.position := by
    funext other
    exact Function.apply_update (fun _ => Process.position) processes pid
      process other
  have hsplit := Finset.sum_eq_add_sum_sdiff_singleton_of_mem
    (Finset.mem_univ pid) fun other => (processes other).position
  rw [hupdate, Finset.sum_update_of_mem (Finset.mem_univ pid), hsplit]
  omega

theorem Filling.put (hs : Filling receiver s) {pid : Pid}
    (hpid : pid ≠ receiver) {i : ℕ} {message : QueuedMessage}
    (hprocess : s.processes pid = .sending 0 i)
    (hmessage : messages[i]? = some message) :
    Filling receiver
      ((s.setQueue 0 { s.queues 0 with
        messages := (s.queues 0).messages ++ [message] }).move pid
          (.sending 0 (i + 1))) := by
  have hi : i < messages.length := (List.getElem?_eq_some_iff.mp hmessage).1
  refine ⟨hs.named, ?_, ?_, ?_, ?_, ?_⟩
  · simpa using hs.opened
  · simpa [Function.update_of_ne hpid.symm] using hs.waits
  · intro other hother
    by_cases hsame : other = pid
    · simpa [hsame, Process.Sends] using hi
    · simpa [hsame] using hs.sends other hother
  · intro other
    by_cases hsame : other = pid
    · subst hsame
      have hkept := hs.kept other
      rw [hprocess] at hkept
      simpa [Process.position, List.take_add_one, hmessage] using hkept
    · simpa [hsame] using
        (hs.kept other).trans (List.sublist_append_left _ [message])
  · have hroom := hs.room
    have hsum := sum_position_update s.processes pid (.sending 0 (i + 1))
    rw [hprocess, position_sending, position_sending] at hsum
    simp only [queues_move, queues_setQueue, Function.update_self,
      List.length_append, List.length_singleton, processes_move,
      processes_setQueue]
    omega

theorem Filling.accepts (hs : Filling receiver s)
    (hcapacity :
      (Fintype.card Pid - 1) * messages.length * (msgLen + 1) ≤ qbytes)
    {pid : Pid} {i : ℕ} {message : QueuedMessage}
    (hpid : pid ≠ receiver) (hprocess : s.processes pid = .sending 0 i)
    (hmessage : messages[i]? = some message) :
    (s.queues 0).Accepts qbytes := by
  have hnext := hs.put hpid hprocess hmessage
  have hroom := hnext.room.trans hnext.sum_le
  simp only [queues_move, queues_setQueue, Function.update_self,
    List.length_append, List.length_singleton] at hroom
  exact ⟨hs.opened, (Nat.mul_le_mul_right _ hroom).trans hcapacity⟩

theorem Filling.step (hs : Filling receiver s)
    (hcapacity :
      (Fintype.card Pid - 1) * messages.length * (msgLen + 1) ≤ qbytes)
    {pid : Pid} (hpid : pid ≠ receiver) {done : Log Pid}
    (hsteps : Steps qbytes s pid next done) : Filling receiver next := by
  have hsends := hs.sends pid hpid
  have hnamed := hs.named
  cases hsteps with
  | @join program qid hprocess hqid =>
      rw [hprocess] at hsends
      cases hsends
      rw [hqid] at hnamed
      cases hnamed
      refine hs.move hpid (.sending 0 0) rfl hs.named rfl ?_ ?_
      · exact ⟨rfl, Nat.zero_le _⟩
      · rw [hprocess]
        rfl
  | @create program hprocess hqid =>
      rw [hprocess] at hsends
      cases hsends
      rw [hqid] at hnamed
      refine hs.move hpid (.sending s.created 0) rfl hnamed rfl ?_ ?_
      · exact ⟨hnamed, Nat.zero_le _⟩
      · rw [hprocess]
        rfl
  | @refuse program hprocess =>
      refine hs.move hpid (.failed []) rfl hnamed rfl rfl ?_
      rw [hprocess]
      rfl
  | @put qid i message hprocess hmessage haccepts =>
      rw [hprocess] at hsends
      obtain ⟨rfl, -⟩ := hsends
      exact hs.put hpid hprocess hmessage
  | @leaveOut qid i message hprocess hmessage haccepts =>
      rw [hprocess] at hsends
      obtain ⟨rfl, -⟩ := hsends
      exact absurd (hs.accepts hcapacity hpid hprocess hmessage) haccepts
  | @sentAll qid i hprocess hall =>
      refine hs.move hpid (.exited []) rfl hnamed rfl rfl ?_
      rw [hprocess] at hsends ⊢
      exact le_antisymm (List.getElem?_eq_none_iff.mp hall) hsends.2
  | @got qid type received message left hprocess =>
      rw [hprocess] at hsends
      cases hsends
  | @trouble qid type received hprocess =>
      rw [hprocess] at hsends
      cases hsends
  | @remove qid received hprocess =>
      rw [hprocess] at hsends
      cases hsends
  | @notRemoved qid received hprocess =>
      rw [hprocess] at hsends
      cases hsends

/-- Only sending: a process that receives nothing. -/
def Process.OnlySends : Process → Prop
  | .start program => program = .sender
  | .sending _ _ | .exited _ | .failed _ => True
  | .receiving _ _ => False

theorem Process.Sends.onlySends {process : Process} (hsends : process.Sends) :
    process.OnlySends := by
  cases process with
  | start program => exact hsends
  | receiving qid received => exact hsends
  | sending _ _ | exited _ | failed _ => trivial

omit [Fintype Pid] in
theorem Steps.gots_eq_nil {pid : Pid} {done : Log Pid}
    (hsteps : Steps qbytes s pid next done)
    (hsends : (s.processes pid).OnlySends) : done.gots = [] := by
  cases hsteps with
  | @got qid type received message left hprocess =>
      rw [hprocess] at hsends
      cases hsends
  | _ => rfl

theorem filling_of_run
    (hcapacity :
      (Fintype.card Pid - 1) * messages.length * (msgLen + 1) ≤ qbytes)
    {actions : List (Action Pid)} {log : Log Pid}
    (hactions : ∀ action ∈ actions, action.pid ≠ receiver)
    (hrun : run (recording (MessageQueue.step qbytes) (note qbytes))
      (initial (programsFor receiver), .empty) actions = some (s, log)) :
    Filling receiver s ∧ log.gots = [] := by
  have hinvariant : ∀ entry action next, action.pid ≠ receiver →
      (Filling receiver entry.1 ∧ entry.2.gots = []) →
      recording (MessageQueue.step qbytes) (note qbytes) entry action =
        some next → Filling receiver next.1 ∧ next.2.gots = [] := by
    rintro entry action next hpid ⟨hfilling, hgots⟩ hstep
    rcases recording_eq_some.mp hstep with ⟨hnext, hlog⟩
    have hsteps := steps_of_step hnext
    refine ⟨hfilling.step hcapacity hpid hsteps, ?_⟩
    rw [hlog, note, gots_append, hgots,
      hsteps.gots_eq_nil (hfilling.sends _ hpid).onlySends]
    rfl
  exact @run_invariant_of_admitted _ _ _
    (fun entry => Filling receiver entry.1 ∧ entry.2.gots = []) _ hinvariant
    _ hactions _ _ ⟨initial_filling receiver, rfl⟩ hrun

/-! ## The receiver -/

/-- A receiver which has got these messages from the queue 0, and the number of
calls it has made. -/
inductive Received : Process → List QueuedMessage → ℕ → Prop
  | start : Received (.start .receiver) [] 0
  | receiving (got : List QueuedMessage) :
      Received (.receiving 0 (got.map some)) got (got.length + 1)
  | exited {got : List QueuedMessage} (hall : got.length = types.length) :
      Received (.exited (got.map some)) got (types.length + 2)

/-- While the receiver is at work the queue has what it will ask for. -/
structure Serving (receiver : Pid) (s : State Pid) (log : Log Pid)
    (got : List QueuedMessage) (calls : ℕ) : Prop where
  received : Received (s.processes receiver) got calls
  kinds : got.map Message.kind = types.take got.length
  gots : through 0 log.gots = got
  others : ∀ pid, pid ≠ receiver → (s.processes pid).OnlySends
  named : calls = 0 → s.qid.getD s.created = 0
  removed : (s.queues 0).removed = decide (calls = types.length + 2)
  enough : Suffices (types.drop got.length) (s.queues 0).messages

/-- The receiver asks for each type as often as a sender sends it. -/
theorem suffices_types {queue : List QueuedMessage}
    (hqueue : messages.Sublist queue) : Suffices types queue := by
  intro type
  have hperm : types.Perm (messages.map Message.kind) := by decide
  have hof := List.Sublist.length_le (hqueue.filter
    fun message => decide (message.kind = type))
  rw [hperm.count_eq, ← length_ofKind]
  exact hof

section Serving

omit [Fintype Pid]

variable {log done : Log Pid} {got : List QueuedMessage} {calls : ℕ}

theorem Serving.move {pid : Pid} (hs : Serving receiver s log got calls)
    (hpid : pid ≠ receiver) (process : Process)
    (hqueues : next.queues = s.queues)
    (hnamed : calls = 0 → next.qid.getD next.created = 0)
    (hprocesses : next.processes = Function.update s.processes pid process)
    (hsends : process.OnlySends) : Serving receiver next log got calls := by
  refine ⟨?_, hs.kinds, hs.gots, ?_, hnamed, ?_, ?_⟩
  · rw [hprocesses, Function.update_of_ne hpid.symm]
    exact hs.received
  · intro other hother
    by_cases hsame : other = pid
    · rwa [hsame, hprocesses, Function.update_self]
    · rw [hprocesses, Function.update_of_ne hsame]
      exact hs.others other hother
  · rw [hqueues]
    exact hs.removed
  · rw [hqueues]
    exact hs.enough

theorem Serving.put {pid : Pid} (hs : Serving receiver s log got calls)
    (hpid : pid ≠ receiver) (qid i : ℕ) (message : QueuedMessage) :
    Serving receiver
      ((s.setQueue qid { s.queues qid with
        messages := (s.queues qid).messages ++ [message] }).move pid
          (.sending qid (i + 1)))
      (log.append (.put ⟨pid, qid, message⟩)) got calls := by
  have hqueue : ∃ more,
      Function.update s.queues qid { s.queues qid with
          messages := (s.queues qid).messages ++ [message] } 0 =
        { s.queues 0 with messages := (s.queues 0).messages ++ more } := by
    by_cases hqid : qid = 0
    · subst hqid
      exact ⟨[message], Function.update_self _ _ _⟩
    · refine ⟨[], ?_⟩
      rw [Function.update_of_ne (Ne.symm hqid), List.append_nil]
  rcases hqueue with ⟨more, hqueue⟩
  refine ⟨?_, hs.kinds, ?_, ?_, hs.named, ?_, ?_⟩
  · rw [processes_move, Function.update_of_ne hpid.symm]
    exact hs.received
  · simpa [Log.put] using hs.gots
  · intro other hother
    by_cases hsame : other = pid
    · rw [hsame, processes_move, Function.update_self]
      trivial
    · rw [processes_move, Function.update_of_ne hsame]
      exact hs.others other hother
  · rw [queues_move, queues_setQueue, hqueue]
    exact hs.removed
  · rw [queues_move, queues_setQueue, hqueue]
    exact hs.enough.append more

/-- A step of a sender adds to the queue at most. -/
theorem Serving.step_other {pid : Pid} (hs : Serving receiver s log got calls)
    (hpid : pid ≠ receiver) (hsteps : Steps qbytes s pid next done) :
    Serving receiver next (log.append done) got calls := by
  have hsends := hs.others pid hpid
  cases hsteps with
  | @join program qid hprocess hqid =>
      rw [hprocess] at hsends
      cases hsends
      rw [append_empty]
      exact hs.move hpid (.sending qid 0) rfl hs.named rfl trivial
  | @create program hprocess hqid =>
      rw [hprocess] at hsends
      cases hsends
      rw [append_empty]
      refine hs.move hpid (.sending s.created 0) rfl ?_ rfl trivial
      intro hcalls
      have hnamed := hs.named hcalls
      rwa [hqid] at hnamed
  | @refuse program hprocess =>
      rw [append_empty]
      exact hs.move hpid (.failed []) rfl hs.named rfl trivial
  | @put qid i message hprocess hmessage haccepts =>
      exact hs.put hpid qid i message
  | @leaveOut qid i message hprocess hmessage haccepts =>
      rw [append_empty]
      exact hs.move hpid (.sending qid (i + 1)) rfl hs.named rfl trivial
  | @sentAll qid i hprocess hall =>
      rw [append_empty]
      exact hs.move hpid (.exited []) rfl hs.named rfl trivial
  | @got qid type received message left hprocess =>
      rw [hprocess] at hsends
      cases hsends
  | @trouble qid type received hprocess =>
      rw [hprocess] at hsends
      cases hsends
  | @remove qid received hprocess =>
      rw [hprocess] at hsends
      cases hsends
  | @notRemoved qid received hprocess =>
      rw [hprocess] at hsends
      cases hsends

theorem Serving.others_update (hs : Serving receiver s log got calls)
    (process : Process) {pid : Pid} (hpid : pid ≠ receiver) :
    (Function.update s.processes receiver process pid).OnlySends := by
  rw [Function.update_of_ne hpid]
  exact hs.others pid hpid

/-- The receiver's first call gives it the queue of the senders. -/
theorem Serving.step_get (hs : Serving receiver s log got calls)
    (hprocess : s.processes receiver = .start .receiver) :
    Serving receiver (stepGet s receiver .receiver) log [] 1 := by
  have hreceived := hs.received
  have henough := hs.enough
  have hgots := hs.gots
  have hremoved := hs.removed
  have hnamed := hs.named
  rw [hprocess] at hreceived
  cases hreceived
  have hget : (stepGet s receiver .receiver).queues = s.queues ∧
      (stepGet s receiver .receiver).processes =
        Function.update s.processes receiver (.receiving 0 []) := by
    have hfirst := hnamed rfl
    unfold stepGet
    cases hqid : s.qid with
    | none =>
        rw [hqid, Option.getD_none] at hfirst
        simp [hfirst, Program.run]
    | some qid =>
        rw [hqid, Option.getD_some] at hfirst
        simp [hfirst, Program.run]
  refine ⟨?_, rfl, hgots, ?_, nofun, ?_, ?_⟩
  · rw [hget.2, Function.update_self]
    exact Received.receiving []
  · intro pid hpid
    rw [hget.2]
    exact hs.others_update _ hpid
  · rw [hget.1, hremoved]
    rfl
  · rw [hget.1]
    exact henough

omit [DecidableEq Pid] in
theorem Serving.length_le (hs : Serving receiver s log got calls) :
    got.length ≤ types.length := by
  have hlength := congrArg List.length hs.kinds
  rw [List.length_map, List.length_take] at hlength
  omega

omit [DecidableEq Pid] in
/-- A receiver that asks for a type gets a message of it. -/
theorem Serving.take (hs : Serving receiver s log got calls) {type : ℕ}
    (htype : types[got.length]? = some type) :
    ∃ message left, TypedQueues.take type (s.queues 0).messages =
        some (message, left) ∧
      Suffices (types.drop (got.length + 1)) left := by
  have hdrop : types.drop got.length = type :: types.drop (got.length + 1) := by
    rcases List.getElem?_eq_some_iff.mp htype with ⟨hlt, hget⟩
    rw [List.drop_eq_getElem_cons hlt, hget]
  have henough := hs.enough
  rw [hdrop] at henough
  exact henough.take

theorem Serving.step_got
    (hs : Serving receiver s log got (got.length + 1)) {type : ℕ}
    {message : QueuedMessage} {left : List QueuedMessage}
    (htype : types[got.length]? = some type)
    (hopened : (s.queues 0).removed = false)
    (htake : TypedQueues.take type (s.queues 0).messages =
      some (message, left)) :
    Serving receiver
      ((s.setQueue 0 { s.queues 0 with messages := left }).move receiver
        (.receiving 0 (got.map some ++ [some message])))
      (log.append (.got ⟨receiver, 0, message⟩)) (got ++ [message])
      (got.length + 1 + 1) := by
  have hlt := (List.getElem?_eq_some_iff.mp htype).1
  rcases hs.take htype with ⟨found, rest, hfound, hmore⟩
  rw [htake, Option.some.injEq, Prod.mk.injEq] at hfound
  refine ⟨?_, ?_, ?_, ?_, nofun, ?_, ?_⟩
  · rw [processes_move, Function.update_self]
    simpa using Received.receiving (got ++ [message])
  · rw [List.map_append, hs.kinds, List.length_append, List.length_singleton,
      List.take_add_one, htype, ← (ofKind_of_take htake).1]
    rfl
  · rw [gots_append, through_append, hs.gots]
    simp [Log.got, through_singleton]
  · intro pid hpid
    exact hs.others_update _ hpid
  · rw [queues_move, queues_setQueue, Function.update_self]
    simp only [hopened]
    exact (decide_eq_false (by omega)).symm
  · rw [queues_move, queues_setQueue, Function.update_self,
      List.length_append, List.length_singleton, hfound.2]
    exact hmore

theorem Serving.step_remove
    (hs : Serving receiver s log got (got.length + 1))
    (hall : types[got.length]? = none) :
    Serving receiver
      ({ s.setQueue 0 { s.queues 0 with removed := true } with
        qid := none }.move receiver (.exited (got.map some)))
      log got (got.length + 1 + 1) := by
  have hlength : got.length = types.length :=
    le_antisymm hs.length_le (List.getElem?_eq_none_iff.mp hall)
  refine ⟨?_, hs.kinds, hs.gots, ?_, nofun, ?_, ?_⟩
  · rw [processes_move, Function.update_self, hlength]
    exact Received.exited hlength
  · intro pid hpid
    exact hs.others_update _ hpid
  · rw [hlength]
    simp
  · rw [hlength, List.drop_length]
    intro kind
    exact Nat.zero_le _

/-- A call of the receiver brings it what it asks for, and the last one removes
the queue. -/
theorem Serving.step_receiver (hs : Serving receiver s log got calls)
    (hstep : MessageQueue.step qbytes s (.call receiver) = some next) :
    ∃ more, Serving receiver next
      (note qbytes log s (.call receiver)) (got ++ more) (calls + 1) := by
  have hreceived := hs.received
  generalize hprocess : s.processes receiver = process at hreceived
  cases hreceived with
  | start =>
      refine ⟨[], ?_⟩
      simp only [MessageQueue.step, hprocess, Option.some.injEq] at hstep
      simp only [note, transfers, hprocess, append_empty]
      exact hstep ▸ hs.step_get hprocess
  | exited hall => simp [MessageQueue.step, hprocess] at hstep
  | receiving =>
      have hsteps := steps_of_step hstep
      rw [note]
      change Steps qbytes s receiver next _ at hsteps
      generalize transfers qbytes s (.call receiver) = done at hsteps ⊢
      have hlength : (got.map some).length = got.length := List.length_map _
      have hopen : (s.queues 0).removed = false := by
        have hle := hs.length_le
        rw [hs.removed]
        exact decide_eq_false (by omega)
      cases hsteps with
      | @join program qid hother => cases hprocess.symm.trans hother
      | @create program hother => cases hprocess.symm.trans hother
      | @refuse program hother => cases hprocess.symm.trans hother
      | @put qid i message hother => cases hprocess.symm.trans hother
      | @leaveOut qid i message hother => cases hprocess.symm.trans hother
      | @sentAll qid i hother => cases hprocess.symm.trans hother
      | @got qid type received message left hother htype hopened htake =>
          cases hprocess.symm.trans hother
          rw [hlength] at htype
          exact ⟨[message], hs.step_got htype hopened htake⟩
      | @trouble qid type received hother htype hnone =>
          cases hprocess.symm.trans hother
          rw [hlength] at htype
          rcases hs.take htype with ⟨message, left, htake, _⟩
          rw [msgrcv_eq_some.mpr ⟨hopen, left, htake, rfl⟩] at hnone
          cases hnone
      | @remove qid received hother hall hopened =>
          cases hprocess.symm.trans hother
          rw [hlength] at hall
          rw [append_empty]
          refine ⟨[], ?_⟩
          rw [List.append_nil]
          exact hs.step_remove hall
      | @notRemoved qid received hother hall hopened =>
          cases hprocess.symm.trans hother
          rw [hopen] at hopened
          cases hopened

/-- Whatever the senders do between its calls, the receiver is served. -/
theorem serving_of_run {actions : List (Action Pid)}
    {entry final : State Pid × Log Pid}
    (hactions : Action.refuse receiver ∉ actions)
    (hs : Serving receiver entry.1 entry.2 got calls)
    (hrun : run (recording (MessageQueue.step qbytes) (note qbytes)) entry
      actions = some final) :
    ∃ more, Serving receiver final.1 final.2 (got ++ more)
      (calls + actions.countP fun action => action.pid = receiver) := by
  induction actions generalizing entry got calls with
  | nil =>
      rw [run_nil, Option.some.injEq] at hrun
      refine ⟨[], ?_⟩
      rw [List.append_nil, ← hrun]
      exact hs
  | cons action actions ih =>
      rcases run_cons_eq_some.mp hrun with ⟨middle, hfirst, hrest⟩
      rcases recording_eq_some.mp hfirst with ⟨hstep, hlog⟩
      rw [List.mem_cons, not_or] at hactions
      by_cases hpid : action.pid = receiver
      · rw [List.countP_cons_of_pos (by simpa using hpid)]
        have hcall : action = .call receiver := by
          cases action with
          | call pid => exact congrArg Action.call hpid
          | refuse pid => exact absurd (congrArg Action.refuse hpid.symm) hactions.1
        subst hcall
        rcases hs.step_receiver hstep with ⟨first, hmiddle⟩
        rw [← hlog] at hmiddle
        rcases ih hactions.2 hmiddle hrest with ⟨more, hfinal⟩
        refine ⟨first ++ more, ?_⟩
        rw [← List.append_assoc, Nat.add_comm _ 1, ← Nat.add_assoc]
        exact hfinal
      · rw [List.countP_cons_of_neg (by simpa using hpid)]
        have hmiddle := hs.step_other hpid (steps_of_step hstep)
        rw [show entry.2.append (transfers qbytes entry.1 action) = middle.2 from
          hlog.symm] at hmiddle
        exact ih hactions.2 hmiddle hrest

theorem Serving.exists_step (hs : Serving receiver s log got calls)
    (hcalls : calls < types.length + 2) :
    ∃ next, MessageQueue.step qbytes s (.call receiver) = some next := by
  have hreceived := hs.received
  generalize hprocess : s.processes receiver = process at hreceived
  cases hreceived with
  | start =>
      refine ⟨stepGet s receiver .receiver, ?_⟩
      simp only [MessageQueue.step, hprocess]
  | receiving =>
      refine ⟨stepReceiver s receiver 0 (got.map some), ?_⟩
      simp only [MessageQueue.step, hprocess]
  | exited hall => exact absurd hcalls (lt_irrefl _)

omit [DecidableEq Pid] in
theorem Serving.served (hs : Serving receiver s log got (types.length + 2)) :
    s.processes receiver = .exited (got.map some) ∧
      got.map Message.kind = types ∧ (s.queues 0).removed = true := by
  have hkinds := hs.kinds
  have hremoved := hs.removed
  have hle := hs.length_le
  rw [decide_eq_true rfl] at hremoved
  have hreceived := hs.received
  generalize hprocess : s.processes receiver = process at hreceived
  generalize hcalls : types.length + 2 = calls at hreceived
  cases hreceived with
  | start => omega
  | receiving => omega
  | exited hall =>
      rw [hall, List.take_length] at hkinds
      exact ⟨rfl, hkinds, hremoved⟩

end Serving

omit [DecidableEq Pid] in
theorem Filling.serving (hs : Filling receiver s) {log : Log Pid}
    (hgots : log.gots = []) {sender : Pid}
    (hsender : s.processes sender = .exited []) :
    Serving receiver s log [] 0 := by
  refine ⟨?_, rfl, ?_, fun pid hpid => (hs.sends pid hpid).onlySends,
    fun _ => hs.named, hs.opened, ?_⟩
  · rw [hs.waits]
    exact Received.start
  · rw [hgots]
    rfl
  · have hsent := hs.kept sender
    rw [hsender] at hsent
    exact suffices_types (by simpa [Process.position] using hsent)

/-- However many senders there are, in whatever order the steps come: a
receiver which starts when one of them is done gets six messages without any
trouble, of the types it asks for in that order and the oldest of each type
first, and its eighth call removes the queue. -/
theorem receiver_gets_all
    (hcapacity :
      (Fintype.card Pid - 1) * messages.length * (msgLen + 1) ≤ qbytes)
    {before after : List (Action Pid)} {sent log : Log Pid} {final : State Pid}
    (hbefore : ∀ action ∈ before, action.pid ≠ receiver)
    (hrun : run (recording (MessageQueue.step qbytes) (note qbytes))
      (initial (programsFor receiver), .empty) before = some (s, sent))
    {sender : Pid} (hsender : s.processes sender = .exited [])
    (hafter : Action.refuse receiver ∉ after)
    (hmore : run (recording (MessageQueue.step qbytes) (note qbytes)) (s, sent)
      after = some (final, log)) :
    ∃ got : List QueuedMessage,
      Received (final.processes receiver) got
        (after.countP fun action => action.pid = receiver) ∧
      got.map Message.kind = types.take got.length ∧
      (∀ type, ofKind type (through 0 log.puts) =
        ofKind type got ++ ofKind type (final.queues 0).messages) ∧
      (after.countP (fun action => action.pid = receiver) < types.length + 2 →
        ∃ next, MessageQueue.step qbytes final (.call receiver) = some next) ∧
      (after.countP (fun action => action.pid = receiver) = types.length + 2 →
        final.processes receiver = .exited (got.map some) ∧
          got.map Message.kind = types ∧ (final.queues 0).removed = true) := by
  rcases filling_of_run hcapacity hbefore hrun with ⟨hfilling, hgots⟩
  rcases serving_of_run hafter (hfilling.serving hgots hsender) hmore with
    ⟨got, hserving⟩
  rw [List.nil_append, Nat.zero_add] at hserving
  have hwhole : run (recording (MessageQueue.step qbytes) (note qbytes))
      (initial (programsFor receiver), .empty) (before ++ after) =
        some (final, log) := by
    rw [run_append, hrun]
    exact hmore
  have haccounted : Accounted final log :=
    run_invariant (P := fun entry => Accounted entry.1 entry.2)
      step_recording_accounted (initial_accounted _) hwhole
  refine ⟨got, hserving.received, hserving.kinds, ?_, ?_, ?_⟩
  · intro type
    rw [haccounted.queues 0 type, hserving.gots]
  · intro hcalls
    exact hserving.exists_step hcalls
  · intro hcalls
    rw [hcalls] at hserving
    exact hserving.served

theorem receiver_gets_all_one :
    ∃ (entry final : State Bool × Log Bool) (got : List QueuedMessage),
      run (recording (MessageQueue.step 30) (note 30))
          (initial (programsFor false), .empty)
          (List.replicate 8 (.call true)) = some entry ∧
        run (recording (MessageQueue.step 30) (note 30)) entry
          (List.replicate 8 (.call false)) = some final ∧
        final.1.processes false = .exited (got.map some) ∧
        got.map Message.kind = types := by
  have hdone : ((run (recording (MessageQueue.step 30) (note 30))
      (initial (programsFor false), .empty)
      (List.replicate 8 (.call true))).map fun entry =>
        entry.1.processes true) = some (.exited []) := by decide
  obtain ⟨⟨s, sent⟩, hrun, hsender⟩ := Option.map_eq_some_iff.mp hdone
  have hsome : ((run (recording (MessageQueue.step 30) (note 30))
      (initial (programsFor false), .empty) (List.replicate 8 (.call true) ++
        List.replicate 8 (.call false))).isSome) = true := by decide
  rw [run_append, hrun, Option.bind_some] at hsome
  obtain ⟨⟨final, log⟩, hmore⟩ := Option.isSome_iff_exists.mp hsome
  obtain ⟨got, -, -, -, -, hexited⟩ := receiver_gets_all (by decide)
    (by decide) hrun hsender (by simp) hmore
  have hlast := hexited (by decide)
  exact ⟨(s, sent), (final, log), got, hrun, hmore, hlast.1, hlast.2.1⟩

example :
    ((run (MessageQueue.step 30) (initial (programsFor false))
        (List.replicate 8 (.call true) ++ List.replicate 8 (.call false))).map
      fun s => (s.processes false).received.map fun message =>
        message.map fun message => message.payload.take msgLen) =
    some (["msg5", "msg1", "msg3", "msg2", "msg6", "msg4"].map
      fun payload => some (CString.ascii payload)) := by decide

end Miscellaneous.MessageQueue
