import Miscellaneous.ChatServerInvariant
import Mathlib.Tactic

/-!
# The descriptors in the sets

An `fd_set` is defined for descriptors below `FD_SETSIZE` only.  The numbers that
the server passes to `FD_SET`, `FD_CLR` and `FD_ISSET` are at most `max_sd` or
come from `accept`, whose result it does not compare with this bound.
-/

namespace Miscellaneous.ChatServer

open GuardedRuns

/-- The descriptors that the loop which lowers `max_sd` passes to `FD_ISSET`. -/
def loweringCalls (masterSet : Finset ℕ) : ℕ → List ℕ
  | 0 => [0]
  | maxSd + 1 =>
      if maxSd + 1 ∈ masterSet then [maxSd + 1]
      else (maxSd + 1) :: loweringCalls masterSet maxSd

/-- The descriptors that a step passes to the macros, in their order. -/
def fdCalls (state : State) (answer : Answer) : List ℕ :=
  match state.pc with
  | .sweep =>
      if state.i ≤ state.maxSd ∧ state.descReady > 0 then [state.i] else []
  | .accepting =>
      match answer with
      | .accepted fd => [fd]
      | _ => []
  | .closing =>
      if state.closeConn then
        state.i ::
          if state.i = state.maxSd then
            loweringCalls (state.masterSet.erase state.i) state.maxSd
          else []
      else []
  | .cleanup => List.range (state.maxSd + 1)
  | _ => []

def noteFdCalls (fds : List ℕ) (state : State) (answer : Answer) : List ℕ :=
  fds ++ fdCalls state answer

/-- A run with the descriptors that it passes to the macros.  The first of them
is the listening socket, before the loop. -/
def runWithFdCalls (setting : Setting) (answers : List Answer) :
    Option (State × List ℕ) :=
  run (recording (step setting) noteFdCalls)
    (initial setting, [setting.listenfd]) answers

theorem exists_runWithFdCalls_iff {setting : Setting} {answers : List Answer}
    {s : State} :
    (∃ fds, runWithFdCalls setting answers = some (s, fds)) ↔
      run (step setting) (initial setting) answers = some s :=
  exists_run_recording_iff

theorem le_of_mem_loweringCalls {masterSet : Finset ℕ} {maxSd fd : ℕ}
    (hfd : fd ∈ loweringCalls masterSet maxSd) : fd ≤ maxSd := by
  induction maxSd with
  | zero =>
      rw [loweringCalls, List.mem_singleton] at hfd
      exact hfd.le
  | succ maxSd ih =>
      unfold loweringCalls at hfd
      split_ifs at hfd
      · rw [List.mem_singleton] at hfd
        exact hfd.le
      · rcases List.mem_cons.mp hfd with rfl | hfd
        · exact le_rfl
        · exact (ih hfd).trans (Nat.le_succ maxSd)

/-! ## Descriptors below a bound -/

/-- The connection that is serviced has a number up to `max_sd`. -/
def Current (s : State) : Prop :=
  s.pc = .receiving ∨ s.pc = .sending ∨ s.pc = .closing → s.i ≤ s.maxSd

structure Below (bound : ℕ) (setting : Setting) (s : State) : Prop where
  invariant : Invariant setting s
  current : Current s
  members : ∀ fd ∈ s.masterSet, fd < bound

theorem Below.maxSd_lt {bound : ℕ} {setting : Setting} {s : State}
    (hbelow : Below bound setting s) : s.maxSd < bound :=
  hbelow.members s.maxSd hbelow.invariant.greatest.1

def Answer.Below (bound : ℕ) (answer : Answer) : Prop :=
  ∀ fd, answer = .accepted fd → fd < bound

theorem current_step {setting : Setting} {s next : State} {answer : Answer}
    (hcurrent : Current s) (hstep : step setting s answer = some next) :
    Current next := by
  cases step_transition hstep with
  | @selectedNone ready _ _ _ =>
      rcases State.loop_pc { s with workingSet := ready } with hpc | hpc <;>
        simp [Current, hpc]
  | sweepEnd _ _ =>
      rcases State.loop_pc s with hpc | hpc <;> simp [Current, hpc]
  | sweepConnection _ hi _ _ _ => exact fun _ => hi
  | received hpc => exact fun _ => hcurrent (Or.inl hpc)
  | recvStop _ hpc _ => exact fun _ => hcurrent (Or.inl hpc)
  | sent hpc => exact fun _ => hcurrent (Or.inr (Or.inl hpc))
  | sendFailed hpc => exact fun _ => hcurrent (Or.inr (Or.inl hpc))
  | @accepted fd hpc _ _ =>
      rcases s.addConnection_pc fd with hpc' | hpc' <;>
        simp [Current, hpc', hpc]
  | selectFailed _ => simp [Current]
  | selected _ _ _ => simp [Current]
  | sweepListening _ _ _ _ _ => simp [Current]
  | closeFault _ _ _ _ => simp [Current]
  | cleanup _ => simp [Current]
  | sweepSkip _ _ _ _ => simp [Current, State.next]
  | acceptWouldBlock _ => simp [Current, State.next]
  | acceptFailed _ => simp [Current, State.next]
  | keep _ _ => simp [Current, State.next]
  | close _ _ _ => simp [Current, State.next]

theorem Below.step {bound : ℕ} {setting : Setting} {s next : State}
    {answer : Answer} (hbelow : Below bound setting s)
    (hanswer : answer.Below bound)
    (hstep : step setting s answer = some next) :
    Below bound setting next := by
  refine ⟨hbelow.invariant.step hstep, current_step hbelow.current hstep, ?_⟩
  intro fd hfd
  rcases mem_masterSet_of_step hstep hfd with hfd | ⟨haccepted, _⟩
  · exact hbelow.members fd hfd
  · exact hanswer fd haccepted

/-- A step passes only such descriptors to the macros. -/
theorem Below.fdCalls_lt {bound : ℕ} {setting : Setting} {s : State}
    {answer : Answer} (hbelow : Below bound setting s)
    (hanswer : answer.Below bound) {fd : ℕ} (hfd : fd ∈ fdCalls s answer) :
    fd < bound := by
  have hmax := hbelow.maxSd_lt
  unfold fdCalls at hfd
  split at hfd
  · split_ifs at hfd with hguard
    · rw [List.mem_singleton] at hfd
      omega
    · cases hfd
  · split at hfd
    · rw [List.mem_singleton] at hfd
      exact hfd ▸ hanswer _ rfl
    · cases hfd
  · next hpc =>
      have hi := hbelow.current (Or.inr (Or.inr hpc))
      split_ifs at hfd
      · rcases List.mem_cons.mp hfd with rfl | hfd
        · omega
        · have hle := le_of_mem_loweringCalls hfd
          omega
      · rw [List.mem_singleton] at hfd
        omega
      · cases hfd
  · rw [List.mem_range] at hfd
    omega
  · cases hfd

/-! ## Runs -/

theorem below_of_run {bound : ℕ} {setting : Setting} {answers : List Answer}
    {final : State × List ℕ} (hlisten : setting.listenfd < bound)
    (hanswers : ∀ answer ∈ answers, answer.Below bound)
    (hrun : runWithFdCalls setting answers = some final) :
    Below bound setting final.1 ∧ ∀ fd ∈ final.2, fd < bound := by
  apply run_invariant_of_admitted
    (P := fun entry : State × List ℕ =>
      Below bound setting entry.1 ∧ ∀ fd ∈ entry.2, fd < bound) ?_ hanswers ?_
    hrun
  · rintro entry answer next hanswer ⟨hbelow, hfds⟩ hnext
    rcases recording_eq_some.mp hnext with ⟨hstep, hrecord⟩
    refine ⟨hbelow.step hanswer hstep, ?_⟩
    intro fd hfd
    rw [hrecord] at hfd
    rcases List.mem_append.mp hfd with hfd | hfd
    · exact hfds fd hfd
    · exact hbelow.fdCalls_lt hanswer hfd
  · have hinitial : Below bound setting (initial setting) := by
      refine ⟨initial_invariant setting, by simp [Current, initial], ?_⟩
      intro fd hfd
      obtain rfl : fd = setting.listenfd := by simpa [initial] using hfd
      exact hlisten
    refine ⟨hinitial, ?_⟩
    intro fd hfd
    rw [List.mem_singleton] at hfd
    exact hfd ▸ hlisten

theorem subset_of_run {setting : Setting} {answers : List Answer}
    {entry final : State × List ℕ}
    (hrun : run (recording (step setting) noteFdCalls) entry answers =
      some final) : entry.2 ⊆ final.2 := by
  apply run_invariant (P := fun later : State × List ℕ => entry.2 ⊆ later.2) ?_
    (fun _ => id) hrun
  intro later answer next hlater hnext
  rw [(recording_eq_some.mp hnext).2]
  exact fun fd hfd => List.mem_append_left _ (hlater hfd)

theorem fdCalls_accepted {setting : Setting} {s next : State} {fd : ℕ}
    (hstep : step setting s (.accepted fd) = some next) :
    fdCalls s (.accepted fd) = [fd] := by
  cases step_transition hstep with
  | accepted hpc _ _ => simp [fdCalls, hpc]
  | recvStop _ _ hanswer => simp at hanswer

theorem mem_of_accepted {setting : Setting} {answers : List Answer}
    {entry final : State × List ℕ} {fd : ℕ} (hfd : .accepted fd ∈ answers)
    (hrun : run (recording (step setting) noteFdCalls) entry answers =
      some final) : fd ∈ final.2 := by
  induction answers generalizing entry with
  | nil => cases hfd
  | cons answer answers ih =>
      rcases run_cons_eq_some.mp hrun with ⟨next, hnext, hrest⟩
      rcases List.mem_cons.mp hfd with rfl | hfd
      · rcases recording_eq_some.mp hnext with ⟨hstep, hrecord⟩
        apply subset_of_run hrest
        rw [hrecord, noteFdCalls, fdCalls_accepted hstep]
        exact List.mem_append_right _ (List.mem_singleton_self fd)
      · exact ih hfd hrest

/-- In a run all descriptors are in the range of an `fd_set` exactly when the
listening one and the accepted ones are. -/
theorem fdCalls_inRange_iff {setting : Setting} {answers : List Answer}
    {s : State} {fds : List ℕ}
    (hrun : runWithFdCalls setting answers = some (s, fds)) :
    ((∀ fd ∈ fds, fd < fdSetSize) ∧ s.maxSd < fdSetSize) ↔
      setting.listenfd < fdSetSize ∧
        ∀ fd, .accepted fd ∈ answers → fd < fdSetSize := by
  constructor
  · rintro ⟨hall, _⟩
    constructor
    · apply hall
      exact subset_of_run hrun (List.mem_singleton_self _)
    · intro fd hfd
      exact hall fd (mem_of_accepted hfd hrun)
  · rintro ⟨hlisten, haccepted⟩
    have hanswers : ∀ answer ∈ answers, answer.Below fdSetSize := by
      rintro answer hanswer fd rfl
      exact haccepted fd hanswer
    have hbelow := below_of_run hlisten hanswers hrun
    exact ⟨hbelow.2, hbelow.1.maxSd_lt⟩

theorem fdCalls_inRange_closed :
    ∃ s fds, runWithFdCalls ⟨0, 4096⟩
        [.selected {0}, .tau, .accepted 1, .acceptWouldBlock, .tau,
          .selected {1}, .tau, .tau, .recvEof, .tau] = some (s, fds) ∧
      (∀ fd ∈ fds, fd < fdSetSize) ∧ s.maxSd < fdSetSize := by
  have hrun : ∃ s fds, runWithFdCalls ⟨0, 4096⟩
      [.selected {0}, .tau, .accepted 1, .acceptWouldBlock, .tau,
        .selected {1}, .tau, .tau, .recvEof, .tau] = some (s, fds) :=
    ⟨_, _, rfl⟩
  rcases hrun with ⟨s, fds, hrun⟩
  refine ⟨s, fds, hrun, (fdCalls_inRange_iff hrun).mpr ⟨by decide, ?_⟩⟩
  intro fd hfd
  simp only [List.mem_cons, Answer.accepted.injEq, reduceCtorEq, or_false,
    false_or, List.not_mem_nil] at hfd
  exact hfd ▸ by decide

/-- A process that may have more descriptors gets one that is too large. -/
theorem fdCalls_leave_range :
    ¬∀ (setting : Setting) (answers : List Answer) (s : State)
      (fds : List ℕ), setting.listenfd < fdSetSize →
        runWithFdCalls setting answers = some (s, fds) →
          (∀ fd ∈ fds, fd < fdSetSize) ∧ s.maxSd < fdSetSize := by
  intro hall
  have hrange := hall ⟨0, 4096⟩ [.selected {0}, .tau, .accepted 1024] _ _
    (by decide) rfl
  exact absurd hrange.2 (by decide)

end Miscellaneous.ChatServer
