import Miscellaneous.ForkedPipe
import Mathlib.Tactic

/-!
# The whole message comes out of the pipe

What has come out, what the child has in hand, what is in the pipe and what
the parent still has to write are always the message.  The child holds its
read end as long as the parent writes, so the parent gets no `SIGPIPE`; and
nobody but the parent holds a write end while the child waits for the end of
the stream, so neither waits for ever.
-/

namespace Miscellaneous.ForkedPipe

open GuardedRuns

def Parent.readEnds : Parent → ℕ
  | .fork | .closeReadEnd => 1
  | .pipe | .write _ | .closeWriteEnd | .wait | .exited | .failed
  | .killed => 0

def Parent.writeEnds : Parent → ℕ
  | .fork | .closeReadEnd | .write _ | .closeWriteEnd => 1
  | .pipe | .wait | .exited | .failed | .killed => 0

def Child.readEnds : Child → ℕ
  | .closeWriteEnd | .read | .echo _ | .closeReadEnd => 1
  | .unborn | .exit | .exited | .reaped => 0

def Child.writeEnds : Child → ℕ
  | .closeWriteEnd => 1
  | .unborn | .read | .echo _ | .closeReadEnd | .exit | .exited
  | .reaped => 0

/-- What the parent has still to write. -/
def Parent.unwritten (msg : CString) : Parent → List UInt8
  | .pipe | .fork | .closeReadEnd | .failed => msg.bytes
  | .write rest => rest
  | .closeWriteEnd | .wait | .exited | .killed => []

def Child.inHand : Child → List UInt8
  | .echo buf => [buf]
  | .unborn | .closeWriteEnd | .read | .closeReadEnd | .exit | .exited
  | .reaped => []

/-- The child has seen the end of the stream. -/
def Child.Done : Child → Prop
  | .closeReadEnd | .exit | .exited | .reaped => True
  | .unborn | .closeWriteEnd | .read | .echo _ => False

/-- The parent has not forked, or never will. -/
def Parent.Alone : Parent → Prop
  | .pipe | .fork | .failed => True
  | .closeReadEnd | .write _ | .closeWriteEnd | .wait | .exited
  | .killed => False

structure Invariant (msg : CString) (s : State) : Prop where
  readEnds : s.readEnds = s.parent.readEnds + s.child.readEnds
  writeEnds : s.writeEnds = s.parent.writeEnds + s.child.writeEnds
  stream : s.output ++ s.child.inHand ++ s.bytes ++ s.parent.unwritten msg =
    msg.bytes
  alone : s.child = .unborn ↔ s.parent.Alone
  done : s.child.Done → s.bytes = [] ∧ (s.parent = .wait ∨ s.parent = .exited)
  reaped : s.child = .reaped ↔ s.parent = .exited
  alive : s.parent ≠ .killed

theorem initial_invariant (msg : CString) : Invariant msg initial where
  readEnds := rfl
  writeEnds := rfl
  stream := rfl
  alone := by simp [initial, Parent.Alone]
  done := by simp [initial, Child.Done]
  reaped := by simp [initial]
  alive := by simp [initial]

variable {capacity : ℕ} {msg : CString} {s next : State}

section Steps

attribute [local simp] Parent.readEnds Parent.writeEnds Parent.unwritten
  Parent.Alone Child.readEnds Child.writeEnds Child.inHand Child.Done

theorem Invariant.parent_step (hs : Invariant msg s)
    (hstep : stepParent msg s = some next) : Invariant msg next := by
  obtain ⟨hread, hwrite, hstream, halone, hdone, hreaped, halive⟩ := hs
  unfold stepParent at hstep
  cases hparent : s.parent with
  | pipe =>
      rw [hparent] at hstep
      cases hstep
      have hchild : s.child = .unborn := halone.mpr (by simp [hparent])
      constructor <;> simp_all
  | fork =>
      rw [hparent] at hstep
      cases hstep
      have hchild : s.child = .unborn := halone.mpr (by simp [hparent])
      constructor <;> simp_all
  | closeReadEnd =>
      rw [hparent] at hstep
      simp only [CString.take_strlen_memory] at hstep
      cases hstep
      constructor <;> simp_all
  | write rest =>
      -- the child has not seen the end of the stream, so it can still read
      have hends : s.readEnds ≠ 0 := by
        rw [hread]
        cases hchild : s.child <;> simp_all
      rw [hparent] at hstep
      simp only [hends, if_false] at hstep
      split at hstep
      · next hrest =>
          cases hstep
          constructor <;> simp_all
      · cases hstep
  | closeWriteEnd =>
      rw [hparent] at hstep
      cases hstep
      constructor <;> simp_all
  | wait =>
      rw [hparent] at hstep
      simp only at hstep
      split at hstep
      · next hchild =>
          cases hstep
          constructor <;> simp_all
      · cases hstep
  | exited => simp [hparent] at hstep
  | failed => simp [hparent] at hstep
  | killed => simp [hparent] at hstep

theorem Invariant.write_step (hs : Invariant msg s) {count : ℕ}
    (hstep : stepWrite capacity s count = some next) : Invariant msg next := by
  obtain ⟨hread, hwrite, hstream, halone, hdone, hreaped, halive⟩ := hs
  unfold stepWrite at hstep
  cases hparent : s.parent with
  | write rest =>
      rw [hparent] at hstep
      simp only at hstep
      split at hstep
      · next hroom =>
          cases hstep
          constructor <;> simp_all
      · cases hstep
  | _ => simp [hparent] at hstep

theorem Invariant.fails_step (hs : Invariant msg s)
    (hstep : stepFails s = some next) : Invariant msg next := by
  obtain ⟨hread, hwrite, hstream, halone, hdone, hreaped, halive⟩ := hs
  unfold stepFails at hstep
  cases hparent : s.parent with
  | pipe =>
      rw [hparent] at hstep
      cases hstep
      constructor <;> simp_all
  | fork =>
      rw [hparent] at hstep
      cases hstep
      have hchild : s.child = .unborn := halone.mpr (by simp [hparent])
      constructor <;> simp_all
  | _ => simp [hparent] at hstep

theorem Invariant.child_step (hs : Invariant msg s)
    (hstep : stepChild s = some next) : Invariant msg next := by
  obtain ⟨hread, hwrite, hstream, halone, hdone, hreaped, halive⟩ := hs
  unfold stepChild at hstep
  cases hchild : s.child with
  | closeWriteEnd =>
      rw [hchild] at hstep
      cases hstep
      constructor <;> simp_all
  | read =>
      rw [hchild] at hstep
      cases hbytes : s.bytes with
      | cons buf rest =>
          simp only [hbytes] at hstep
          cases hstep
          constructor <;> simp_all
      | nil =>
          simp only [hbytes] at hstep
          split at hstep
          · next hends =>
              -- nobody can write, so the parent has written everything
              have hwait : s.parent = .wait := by
                cases hparent : s.parent <;> simp_all
              cases hstep
              constructor <;> simp_all
          · cases hstep
  | echo buf =>
      rw [hchild] at hstep
      cases hstep
      constructor <;> simp_all
  | closeReadEnd =>
      rw [hchild] at hstep
      cases hstep
      constructor <;> simp_all
  | exit =>
      rw [hchild] at hstep
      cases hstep
      constructor <;> simp_all
  | unborn => simp [hchild] at hstep
  | exited => simp [hchild] at hstep
  | reaped => simp [hchild] at hstep

end Steps

theorem Invariant.step (hs : Invariant msg s) {action : Action}
    (hstep : step capacity msg s action = some next) : Invariant msg next := by
  cases action with
  | parent => exact hs.parent_step hstep
  | parentWrites count => exact hs.write_step hstep
  | parentFails => exact hs.fails_step hstep
  | child => exact hs.child_step hstep

/-! ## Every run ends -/

def Parent.stepsLeft : Parent → ℕ
  | .pipe => 6
  | .fork => 5
  | .closeReadEnd => 4
  | .write _ => 3
  | .closeWriteEnd => 2
  | .wait => 1
  | .exited | .failed | .killed => 0

def Child.stepsLeft : Child → ℕ
  | .unborn | .closeWriteEnd => 4
  | .read | .echo _ => 3
  | .closeReadEnd => 2
  | .exit => 1
  | .exited | .reaped => 0

/-- A byte is written, read and echoed. -/
def State.stepsLeft (msg : CString) (s : State) : ℕ :=
  s.parent.stepsLeft + s.child.stepsLeft +
    3 * (s.parent.unwritten msg).length + 2 * s.bytes.length +
    s.child.inHand.length

section StepsLeft

attribute [local simp] State.stepsLeft Parent.stepsLeft Child.stepsLeft
  Parent.unwritten Child.inHand

theorem stepParent_stepsLeft (hs : Invariant msg s)
    (hstep : stepParent msg s = some next) :
    next.stepsLeft msg < s.stepsLeft msg := by
  unfold stepParent at hstep
  cases hparent : s.parent with
  | fork =>
      have hchild : s.child = .unborn :=
        hs.alone.mpr (by simp [hparent, Parent.Alone])
      rw [hparent] at hstep
      cases hstep
      simp [hparent, hchild]
  | write rest =>
      rw [hparent] at hstep
      simp only at hstep
      split at hstep
      · next hrest =>
          cases hstep
          simp [hparent, hrest]
      · split at hstep
        · cases hstep
          simp [hparent]
          omega
        · cases hstep
  | wait =>
      rw [hparent] at hstep
      simp only at hstep
      split at hstep
      · next hchild =>
          cases hstep
          simp [hparent, hchild]
      · cases hstep
  | closeReadEnd =>
      rw [hparent] at hstep
      simp only [CString.take_strlen_memory] at hstep
      cases hstep
      simp [hparent]
  | exited => simp [hparent] at hstep
  | failed => simp [hparent] at hstep
  | killed => simp [hparent] at hstep
  | _ =>
      rw [hparent] at hstep
      cases hstep
      simp [hparent]

theorem stepWrite_stepsLeft {count : ℕ}
    (hstep : stepWrite capacity s count = some next) :
    next.stepsLeft msg < s.stepsLeft msg := by
  unfold stepWrite at hstep
  cases hparent : s.parent with
  | write rest =>
      rw [hparent] at hstep
      simp only at hstep
      split at hstep
      · next hroom =>
          obtain ⟨-, hpos, hlength, -⟩ := hroom
          cases hstep
          simp [hparent, Nat.min_eq_left hlength]
          omega
      · cases hstep
  | _ => simp [hparent] at hstep

theorem stepFails_stepsLeft (hstep : stepFails s = some next) :
    next.stepsLeft msg < s.stepsLeft msg := by
  unfold stepFails at hstep
  cases hparent : s.parent with
  | pipe =>
      rw [hparent] at hstep
      cases hstep
      simp [hparent]
  | fork =>
      rw [hparent] at hstep
      cases hstep
      simp [hparent]
  | _ => simp [hparent] at hstep

theorem stepChild_stepsLeft (hstep : stepChild s = some next) :
    next.stepsLeft msg < s.stepsLeft msg := by
  unfold stepChild at hstep
  cases hchild : s.child with
  | read =>
      rw [hchild] at hstep
      cases hbytes : s.bytes with
      | cons buf rest =>
          simp only [hbytes] at hstep
          cases hstep
          simp [hchild, hbytes]
          omega
      | nil =>
          simp only [hbytes] at hstep
          split at hstep
          · cases hstep
            simp [hchild, hbytes]
          · cases hstep
  | unborn => simp [hchild] at hstep
  | exited => simp [hchild] at hstep
  | reaped => simp [hchild] at hstep
  | _ =>
      rw [hchild] at hstep
      cases hstep
      simp [hchild]

end StepsLeft

theorem Invariant.stepsLeft (hs : Invariant msg s) {action : Action}
    (hstep : ForkedPipe.step capacity msg s action = some next) :
    next.stepsLeft msg < s.stepsLeft msg := by
  cases action with
  | parent => exact stepParent_stepsLeft hs hstep
  | parentWrites count => exact stepWrite_stepsLeft hstep
  | parentFails => exact stepFails_stepsLeft hstep
  | child => exact stepChild_stepsLeft hstep

theorem Invariant.length_le (hs : Invariant msg s) {actions : List Action}
    {final : State}
    (hrun : run (ForkedPipe.step capacity msg) s actions = some final) :
    actions.length ≤ s.stepsLeft msg := by
  have hcount := @run_countP_add_rank_le State Action
    (ForkedPipe.step capacity msg) (Invariant msg) (fun _ => True)
    (fun _ => true) (State.stepsLeft msg)
    (fun _ _ _ _ hstate hstep => hstate.step hstep)
    (fun _ _ _ _ hstate hstep => hstate.stepsLeft hstep)
    actions (fun _ _ => trivial) s final hs hrun
  rw [List.countP_true] at hcount
  omega

/-! ## No run stops halfway -/

/-- Both processes are done. -/
def State.Ended (s : State) : Prop :=
  s.parent = .failed ∨ s.parent = .exited

theorem exists_stepChild (hunborn : s.child ≠ .unborn)
    (hexited : s.child ≠ .exited) (hreaped : s.child ≠ .reaped)
    (hread : s.child = .read → s.bytes ≠ [] ∨ s.writeEnds = 0) :
    ∃ next, stepChild s = some next := by
  unfold stepChild
  cases hchild : s.child with
  | read =>
      cases hbytes : s.bytes with
      | cons buf rest => exact ⟨_, rfl⟩
      | nil =>
          rcases hread hchild with hne | hends
          · exact absurd hbytes hne
          · simp [hends]
  | unborn => exact absurd hchild hunborn
  | exited => exact absurd hchild hexited
  | reaped => exact absurd hchild hreaped
  | _ => exact ⟨_, rfl⟩

/-- While the parent writes, the child can write, or it can read a pipe which
is full. -/
theorem Invariant.exists_step_write (hs : Invariant msg s)
    (hcapacity : 0 < capacity) {rest : List UInt8}
    (hparent : s.parent = .write rest) :
    ∃ action next, ForkedPipe.step capacity msg s action = some next := by
  have hnotDone : ¬s.child.Done := by
    intro hdone
    rcases (hs.done hdone).2 with hwait | hexited
    · simp [hparent] at hwait
    · simp [hparent] at hexited
  have hunborn : s.child ≠ .unborn := fun hchild => by
    simpa [hparent, Parent.Alone] using hs.alone.mp hchild
  by_cases hrest : rest = []
  · exact ⟨.parent, by simp [ForkedPipe.step, stepParent, hparent, hrest]⟩
  by_cases hroom : s.bytes.length + 1 ≤ capacity
  · have hends : s.readEnds ≠ 0 := by
      rw [hs.readEnds]
      cases hchild : s.child <;>
        simp_all [Child.Done, Parent.readEnds, Child.readEnds]
    have hlength : 1 ≤ rest.length := List.length_pos_iff.mpr hrest
    refine ⟨.parentWrites 1, ?_⟩
    simp only [ForkedPipe.step, stepWrite, hparent]
    rw [if_pos ⟨hends, Nat.one_pos, hlength, hroom⟩]
    exact ⟨_, rfl⟩
  · have hfull : s.bytes ≠ [] := by
      rintro hbytes
      rw [hbytes, List.length_nil] at hroom
      omega
    have hexited : s.child ≠ .exited := fun hchild =>
      hnotDone (by simp [hchild, Child.Done])
    have hreaped : s.child ≠ .reaped := fun hchild =>
      hnotDone (by simp [hchild, Child.Done])
    obtain ⟨next, hnext⟩ :=
      exists_stepChild hunborn hexited hreaped fun _ => Or.inl hfull
    exact ⟨.child, next, hnext⟩

/-- The parent waits for a child which reads to the end. -/
theorem Invariant.exists_step_wait (hs : Invariant msg s)
    (hparent : s.parent = .wait) :
    ∃ action next, ForkedPipe.step capacity msg s action = some next := by
  by_cases hexited : s.child = .exited
  · exact ⟨.parent, by simp [ForkedPipe.step, stepParent, hparent, hexited]⟩
  have hunborn : s.child ≠ .unborn := fun hchild => by
    simpa [hparent, Parent.Alone] using hs.alone.mp hchild
  have hreaped : s.child ≠ .reaped := fun hchild => by
    simpa [hparent] using hs.reaped.mp hchild
  have hends : s.child = .read → s.writeEnds = 0 := by
    intro hchild
    rw [hs.writeEnds, hparent, hchild]
    rfl
  obtain ⟨next, hnext⟩ := exists_stepChild hunborn hexited hreaped
    fun hchild => Or.inr (hends hchild)
  exact ⟨.child, next, hnext⟩

theorem Invariant.exists_step (hs : Invariant msg s)
    (hcapacity : 0 < capacity) (hended : ¬s.Ended) :
    ∃ action next, ForkedPipe.step capacity msg s action = some next := by
  cases hparent : s.parent with
  | write rest => exact hs.exists_step_write hcapacity hparent
  | wait => exact hs.exists_step_wait hparent
  | exited => exact absurd (Or.inr hparent) hended
  | failed => exact absurd (Or.inl hparent) hended
  | killed => exact absurd hparent hs.alive
  | _ => exact ⟨.parent, by simp [ForkedPipe.step, stepParent, hparent]⟩

theorem Invariant.ended (hs : Invariant msg s) (hended : s.Ended) :
    s.parent = .failed ∧ s.output = [] ∨
      s.parent = .exited ∧ s.child = .reaped ∧ s.output = msg.bytes := by
  have hstream := hs.stream
  rcases hended with hparent | hparent
  · left
    rw [hparent] at hstream
    have hlength := congrArg List.length hstream
    simp only [Parent.unwritten, List.length_append] at hlength
    exact ⟨hparent, List.length_eq_zero_iff.mp (by omega)⟩
  · right
    have hchild : s.child = .reaped := hs.reaped.mpr hparent
    have hbytes := (hs.done (by simp [hchild, Child.Done])).1
    rw [hparent, hchild, hbytes] at hstream
    exact ⟨hparent, hchild, by simpa [Child.inHand, Parent.unwritten]
      using hstream⟩

/-- In every interleaving of the parent and the child, for every message and
every capacity: the parent is not killed, what has come out is the start of
the message, there are at most three steps for a byte and ten more, and when
neither can go on the child has been waited for and the whole message has come
out, unless there was no pipe or no child. -/
theorem message_comes_out (hcapacity : 0 < capacity)
    {actions : List Action}
    (hrun : run (ForkedPipe.step capacity msg) initial actions = some s) :
    s.parent ≠ .killed ∧ s.output <+: msg.bytes ∧
      actions.length ≤ 3 * msg.bytes.length + 10 ∧
      ((∀ action, ForkedPipe.step capacity msg s action = none) →
        s.parent = .failed ∧ s.output = [] ∨
          s.parent = .exited ∧ s.child = .reaped ∧ s.output = msg.bytes) := by
  have hs : Invariant msg s :=
    run_invariant (fun _ _ _ hstate hstep => hstate.step hstep)
      (initial_invariant msg) hrun
  refine ⟨hs.alive, ?_, ?_, ?_⟩
  · have hstream := hs.stream
    rw [List.append_assoc, List.append_assoc] at hstream
    exact ⟨_, hstream⟩
  · have hlength := (initial_invariant msg).length_le hrun
    simp [State.stepsLeft, initial, Parent.stepsLeft, Child.stepsLeft,
      Parent.unwritten, Child.inHand] at hlength
    omega
  · intro hstuck
    refine hs.ended (by_contra fun hended => ?_)
    obtain ⟨action, next, hstep⟩ := hs.exists_step hcapacity hended
    simp [hstuck action] at hstep

theorem message_comes_out_three :
    ∃ s, run (ForkedPipe.step 2 ForkedPipe.msg) initial
        [.parent, .parent, .child, .parent, .parentWrites 2, .child, .child,
          .parentWrites 1] = some s ∧
      s.parent ≠ .killed ∧ s.output <+: ForkedPipe.msg.bytes ∧
      8 ≤ 3 * ForkedPipe.msg.bytes.length + 10 ∧
      ((∀ action, ForkedPipe.step 2 ForkedPipe.msg s action = none) →
        s.parent = .failed ∧ s.output = [] ∨
          s.parent = .exited ∧ s.child = .reaped ∧
            s.output = ForkedPipe.msg.bytes) :=
  exists_run_and (by decide) fun _ hrun =>
    message_comes_out (by decide) hrun

end Miscellaneous.ForkedPipe
