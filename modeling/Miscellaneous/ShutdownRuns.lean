import Miscellaneous.Shutdown
import Mathlib.Tactic

/-!
# Every way in which the shutdown can go

Whatever the order of the steps: the parent's last line is the last one, and
behind it the child is dead.  Either the signal came before the handler was
registered, and the child has said nothing, or it has confirmed and announced
its end after any number of wake-ups.  After the signal has been sent, eight
more steps at most are possible, and they end with the parent.
-/

namespace Miscellaneous.Shutdown

open GuardedRuns

def childLines (output : List Line) : List Line := output.filter Line.ofChild

def parentLines (output : List Line) : List Line :=
  output.filter fun line => !line.ofChild

@[simp] theorem childLines_append (output : List Line) (line : Line) :
    childLines (output ++ [line]) =
      childLines output ++ if line.ofChild then [line] else [] := by
  cases hline : line.ofChild <;> simp [childLines, hline]

@[simp] theorem parentLines_append (output : List Line) (line : Line) :
    parentLines (output ++ [line]) =
      parentLines output ++ if line.ofChild then [] else [line] := by
  cases hline : line.ofChild <;> simp [parentLines, hline]

/-- What the child has said when it is at a point of its program. -/
def ChildStory (lines : List Line) : Child → Prop
  | .absent | .setHandler | .killed => lines = []
  | .sleep | .wake => ∃ naps, lines = List.replicate naps .wokeUp
  | .confirm signum =>
      signum = sigterm ∧ ∃ naps, lines = List.replicate naps .wokeUp
  | .announce =>
      ∃ naps, lines = List.replicate naps .wokeUp ++ [.receivedSignal sigterm]
  | .gracefulSleep | .terminate =>
      ∃ naps, lines = List.replicate naps .wokeUp ++
        [.receivedSignal sigterm, .aboutToTerminate]
  | .exited =>
      ∃ naps, lines = List.replicate naps .wokeUp ++
        [.receivedSignal sigterm, .aboutToTerminate, .terminatingNow]

def ParentStory (lines : List Line) : Parent → Prop
  | .fork | .announce => lines = []
  | .sleep | .kill | .wait | .report => lines = [.parentSleeping]
  | .exited => lines = [.parentSleeping, .childTerminated]
  | .failed => lines = [] ∨ lines = [.parentSleeping]

/-- How far the two processes can be, and whether the signal is on its way. -/
inductive Together : Parent → Child → Signal → Prop where
  | start : Together .fork .absent .none
  | forkFailed : Together .failed .absent .none
  | before {parent : Parent} {child : Child}
      (hparent : parent = .announce ∨ parent = .sleep ∨ parent = .kill ∨
        parent = .failed)
      (hchild : child.Interruptible) : Together parent child .none
  | sent {child : Child} {signal : Signal} (hchild : child.Interruptible)
      (hsignal : signal ≠ .none) : Together .wait child signal
  | stopping {child : Child} (habsent : child ≠ .absent)
      (hchild : ¬child.Interruptible) : Together .wait child .none
  | ended {parent : Parent} {child : Child}
      (hparent : parent = .report ∨ parent = .exited)
      (hchild : child.Ended) : Together parent child .none

structure Story (s : State) : Prop where
  together : Together s.parent s.child s.signal
  child : ChildStory (childLines s.output) s.child
  parent : ParentStory (parentLines s.output) s.parent
  last : s.parent = .exited →
    ∃ before, s.output = before ++ [.childTerminated]

theorem initial_story : Story initial where
  together := .start
  child := rfl
  parent := rfl
  last := by simp [initial]

theorem Story.stepParent {s t : State} (hstory : Story s)
    (hstep : stepParent s = some t) : Story t := by
  rcases s with ⟨parent, child, signal, output⟩
  rcases hstory with ⟨htogether, hchild, hparent, hlast⟩
  cases parent with
  | fork =>
      cases hstep
      cases htogether with
      | start =>
          exact ⟨.before (by simp) (by simp [Child.Interruptible]), hchild,
            hparent, by simp⟩
      | before hfork _ => simp at hfork
      | ended hfork _ => simp at hfork
  | announce =>
      cases hstep
      cases htogether with
      | before _ hundisturbed =>
          refine ⟨.before (by simp) hundisturbed, ?_, ?_, by simp⟩
          · simpa [State.puts, Line.ofChild] using hchild
          · simpa [State.puts, Line.ofChild, ParentStory] using hparent
      | ended hannounce _ => simp at hannounce
  | sleep =>
      cases hstep
      cases htogether with
      | before _ hundisturbed =>
          exact ⟨.before (by simp) hundisturbed, hchild, hparent, by simp⟩
      | ended hsleep _ => simp at hsleep
  | kill =>
      cases hstep
      cases htogether with
      | before _ hundisturbed =>
          exact ⟨.sent hundisturbed (by simp), hchild, hparent, by simp⟩
      | ended hkill _ => simp at hkill
  | wait =>
      simp only [Shutdown.stepParent] at hstep
      split_ifs at hstep with hended
      cases hstep
      cases htogether with
      | before hwait _ => simp at hwait
      | sent hundisturbed _ =>
          rcases hended with rfl | rfl <;>
          simp [Child.Interruptible] at hundisturbed
      | stopping _ _ =>
          exact ⟨.ended (by simp) hended, hchild, hparent, by simp⟩
      | ended hwait _ => simp at hwait
  | report =>
      cases hstep
      cases htogether with
      | before hreport _ => simp at hreport
      | ended _ hended =>
          refine ⟨.ended (by simp) hended, ?_, ?_, fun _ => ⟨output, rfl⟩⟩
          · simpa [State.puts, Line.ofChild] using hchild
          · have hlines : parentLines output = [.parentSleeping] := hparent
            simp [State.puts, Line.ofChild, ParentStory, hlines]
  | exited => cases hstep
  | failed => cases hstep

theorem Story.stepParentFails {s t : State} (hstory : Story s)
    (hstep : stepParentFails s = some t) : Story t := by
  rcases s with ⟨parent, child, signal, output⟩
  rcases hstory with ⟨htogether, hchild, hparent, hlast⟩
  cases parent with
  | fork =>
      cases hstep
      cases htogether with
      | start => exact ⟨.forkFailed, hchild, Or.inl hparent, by simp⟩
      | before hfork _ => simp at hfork
      | ended hfork _ => simp at hfork
  | kill =>
      cases hstep
      cases htogether with
      | before _ hundisturbed =>
          exact ⟨.before (by simp) hundisturbed, hchild, Or.inr hparent,
            by simp⟩
      | ended hkill _ => simp at hkill
  | _ => cases hstep

/-- A step of the child stays in its own code or in the handler, and what it
prints continues its story. -/
theorem Child.next_story {child next : Child} {lines said : List Line}
    (hnext : child.next = some (next, lines))
    (hsaid : ChildStory said child) :
    (child.Interruptible ∧ next.Interruptible ∨
      ¬child.Interruptible ∧ next ≠ .absent ∧ ¬next.Interruptible) ∧
    (child ≠ .absent ∧ ¬child.Ended) ∧
    (∀ line ∈ lines, line.ofChild = true) ∧
    ChildStory (said ++ lines) next := by
  cases child with
  | setHandler =>
      cases hnext
      obtain rfl : said = [] := hsaid
      exact ⟨by simp [Child.Interruptible], by simp [Child.Ended], by simp, 0,
        rfl⟩
  | sleep =>
      cases hnext
      refine ⟨by simp [Child.Interruptible], by simp [Child.Ended], by simp, ?_⟩
      rw [List.append_nil]
      exact hsaid
  | wake =>
      cases hnext
      rcases hsaid with ⟨naps, rfl⟩
      exact ⟨by simp [Child.Interruptible], by simp [Child.Ended],
        by simp [Line.ofChild], naps + 1, List.replicate_succ'.symm⟩
  | confirm signum =>
      cases hnext
      rcases hsaid with ⟨rfl, naps, rfl⟩
      exact ⟨by simp [Child.Interruptible], by simp [Child.Ended],
        by simp [Line.ofChild], naps, rfl⟩
  | announce =>
      cases hnext
      rcases hsaid with ⟨naps, rfl⟩
      exact ⟨by simp [Child.Interruptible], by simp [Child.Ended],
        by simp [Line.ofChild], naps, by simp⟩
  | gracefulSleep =>
      cases hnext
      exact ⟨by simp [Child.Interruptible], by simp [Child.Ended], by simp,
        by simpa [ChildStory] using hsaid⟩
  | terminate =>
      cases hnext
      rcases hsaid with ⟨naps, rfl⟩
      exact ⟨by simp [Child.Interruptible], by simp [Child.Ended],
        by simp [Line.ofChild], naps, by simp⟩
  | absent => cases hnext
  | exited => cases hnext
  | killed => cases hnext

theorem Signal.afterCall_eq_none_iff {signal : Signal} :
    signal.afterCall = .none ↔ signal = .none := by
  cases signal <;> simp [Signal.afterCall]

theorem Together.ofChild {parent : Parent} {child next : Child}
    {signal : Signal} (htogether : Together parent child signal)
    (hnext : child.Interruptible ∧ next.Interruptible ∨
      ¬child.Interruptible ∧ next ≠ .absent ∧ ¬next.Interruptible)
    (halive : child ≠ .absent ∧ ¬child.Ended) :
    Together parent next signal.afterCall := by
  cases htogether with
  | start => exact absurd rfl halive.1
  | forkFailed => exact absurd rfl halive.1
  | before hparent hchild =>
      rcases hnext with ⟨_, hnext⟩ | ⟨hnot, _⟩
      · exact .before hparent hnext
      · exact absurd hchild hnot
  | sent hchild hsignal =>
      rcases hnext with ⟨_, hnext⟩ | ⟨hnot, _⟩
      · exact .sent hnext (mt Signal.afterCall_eq_none_iff.mp hsignal)
      · exact absurd hchild hnot
  | stopping _ hchild =>
      rcases hnext with ⟨hundisturbed, _⟩ | ⟨_, habsent, hnext⟩
      · exact absurd hundisturbed hchild
      · exact .stopping habsent hnext
  | ended _ hchild => exact absurd hchild halive.2

theorem childLines_append_said {output lines : List Line}
    (hlines : ∀ line ∈ lines, line.ofChild = true) :
    childLines (output ++ lines) = childLines output ++ lines := by
  rw [childLines, List.filter_append, List.filter_eq_self.mpr hlines]
  rfl

theorem parentLines_append_said {output lines : List Line}
    (hlines : ∀ line ∈ lines, line.ofChild = true) :
    parentLines (output ++ lines) = parentLines output := by
  have hnone : lines.filter (fun line => !line.ofChild) = [] :=
    List.filter_eq_nil_iff.mpr fun line hline => by simp [hlines line hline]
  rw [parentLines, List.filter_append, hnone, List.append_nil]
  rfl

/-- The parent is at its end only behind the child. -/
theorem Story.child_ended {s : State} (hstory : Story s)
    (hexited : s.parent = .exited) : s.child.Ended := by
  rcases s with ⟨parent, child, signal, output⟩
  obtain rfl : parent = .exited := hexited
  cases hstory.together with
  | before hparent _ => simp at hparent
  | ended _ hended => exact hended

theorem Story.stepChild {s t : State} (hstory : Story s)
    (hstep : stepChild s = some t) : Story t := by
  unfold Shutdown.stepChild at hstep
  split_ifs at hstep
  rcases Option.map_eq_some_iff.mp hstep with ⟨⟨next, lines⟩, hnext, rfl⟩
  rcases Child.next_story hnext hstory.child with
    ⟨hpoints, halive, hlines, hsaid⟩
  refine ⟨hstory.together.ofChild hpoints halive, ?_, ?_, ?_⟩
  · rw [← childLines_append_said hlines] at hsaid
    exact hsaid
  · dsimp only
    rw [parentLines_append_said hlines]
    exact hstory.parent
  · intro hexited
    exact absurd (hstory.child_ended hexited) halive.2

theorem Story.stepDeliver {s t : State} (hstory : Story s)
    (hstep : stepDeliver s = some t) : Story t := by
  rcases s with ⟨parent, child, signal, output⟩
  simp only [Shutdown.stepDeliver] at hstep
  split_ifs at hstep with hguard hhandler
  · cases hstep
    obtain rfl : child = .setHandler := hhandler
    have hsaid : childLines output = [] := hstory.child
    cases hstory.together with
    | before => exact absurd rfl hguard.1
    | stopping _ hnot => exact absurd hguard.2 hnot
    | ended => exact absurd rfl hguard.1
    | sent _ _ =>
        exact ⟨.stopping (by simp) (by simp [Child.Interruptible]), hsaid,
          hstory.parent, by simp⟩
  · cases hstep
    have hsaid : ∃ naps, childLines output = List.replicate naps .wokeUp := by
      rcases hguard.2 with rfl | rfl | rfl
      · exact absurd rfl hhandler
      · exact hstory.child
      · exact hstory.child
    cases hstory.together with
    | start => exact absurd rfl hguard.1
    | forkFailed => exact absurd rfl hguard.1
    | before => exact absurd rfl hguard.1
    | stopping => exact absurd rfl hguard.1
    | ended => exact absurd rfl hguard.1
    | sent _ _ =>
        exact ⟨.stopping (by simp) (by simp [Child.Interruptible]),
          ⟨rfl, hsaid⟩, hstory.parent, by simp⟩

theorem Story.step {s t : State} {label : Label} (hstory : Story s)
    (hstep : step s label = some t) : Story t := by
  cases label with
  | parent => exact hstory.stepParent hstep
  | parentFails => exact hstory.stepParentFails hstep
  | child => exact hstory.stepChild hstep
  | deliver => exact hstory.stepDeliver hstep

theorem run_story {labels : List Label} {s : State}
    (hrun : run step initial labels = some s) : Story s :=
  run_invariant (fun _ _ _ hstory hstep => hstory.step hstep) initial_story hrun

theorem mem_output_iff {output : List Line} {line : Line}
    (hline : line.ofChild = false) :
    line ∈ output ↔ line ∈ parentLines output := by
  simp [parentLines, hline]

/-- Only at its end the parent has said that the child has terminated. -/
theorem Story.childTerminated_mem_iff {s : State} (hstory : Story s) :
    .childTerminated ∈ s.output ↔ s.parent = .exited := by
  rw [mem_output_iff rfl]
  have hparent := hstory.parent
  cases hpc : s.parent with
  | failed =>
      rw [hpc] at hparent
      rcases hparent with hlines | hlines <;> simp [hlines]
  | _ =>
      rw [hpc] at hparent
      have hlines : parentLines s.output = _ := hparent
      simp [hlines]

/-- When the parent says that its child has terminated, everything else has
been said.  Of the child that is nothing at all if the signal came before its
handler was registered; else it is the three lines of the handler, behind the
lines of its naps. -/
theorem terminated_last {labels : List Label} {s : State}
    (hrun : run step initial labels = some s)
    (hsaid : .childTerminated ∈ s.output) :
    s.child = .killed ∧ s.output = [.parentSleeping, .childTerminated] ∨
      s.child = .exited ∧ ∃ before naps,
        s.output = before ++ [.childTerminated] ∧
        parentLines before = [.parentSleeping] ∧
        childLines before = List.replicate naps .wokeUp ++
          [.receivedSignal sigterm, .aboutToTerminate, .terminatingNow] := by
  have hstory : Story s := run_story hrun
  have hexited : s.parent = .exited := hstory.childTerminated_mem_iff.mp hsaid
  have hchild := hstory.child
  have hparent := hstory.parent
  rw [hexited] at hparent
  rcases hstory.child_ended hexited with hend | hend
  · rw [hend] at hchild
    rcases hstory.last hexited with ⟨before, hbefore⟩
    rcases hchild with ⟨naps, hlines⟩
    refine Or.inr ⟨hend, before, naps, hbefore, ?_, ?_⟩
    · rw [hbefore] at hparent
      have hsplit : parentLines before ++ [.childTerminated] =
          [.parentSleeping] ++ [.childTerminated] := by
        simpa [Line.ofChild, ParentStory] using hparent
      exact List.append_cancel_right hsplit
    · rw [hbefore] at hlines
      simpa [Line.ofChild] using hlines
  · rw [hend] at hchild
    refine Or.inl ⟨hend, ?_⟩
    have hall : parentLines s.output = s.output :=
      List.filter_eq_self.mpr fun line hline => by
        have hnot := List.filter_eq_nil_iff.mp hchild line hline
        simpa using hnot
    rw [← hall]
    exact hparent

/-! ## How long it takes -/

def Parent.rank : Parent → ℕ
  | .wait => 2
  | .report => 1
  | .fork | .announce | .sleep | .kill | .exited | .failed => 0

def Child.rank : Child → ℕ
  | .setHandler | .sleep | .wake => 5
  | .confirm _ => 4
  | .announce => 3
  | .gracefulSleep => 2
  | .terminate => 1
  | .absent | .exited | .killed => 0

def Signal.rank : Signal → ℕ
  | .sent => 1
  | .none | .due => 0

/-- The steps that are left when the signal has been sent. -/
def rank (s : State) : ℕ := s.parent.rank + s.child.rank + s.signal.rank

/-- The parent has come back from `kill`. -/
def Sent (s : State) : Prop :=
  s.parent = .wait ∨ s.parent = .report ∨ s.parent = .exited

/-- In its own code the child stays where it is in its rank. -/
theorem Child.next_rank_of_interruptible {child next : Child}
    {lines : List Line} (hnext : child.next = some (next, lines))
    (hchild : child.Interruptible) : next.rank = child.rank := by
  rcases hchild with rfl | rfl | rfl
  · cases hnext
    rfl
  · cases hnext
    rfl
  · cases hnext
    rfl

theorem Child.next_rank {child next : Child} {lines : List Line}
    (hnext : child.next = some (next, lines)) (hsent : ¬child.Interruptible) :
    next.rank + 1 = child.rank := by
  cases child with
  | setHandler => simp [Child.Interruptible] at hsent
  | sleep => simp [Child.Interruptible] at hsent
  | wake => simp [Child.Interruptible] at hsent
  | absent => cases hnext
  | exited => cases hnext
  | killed => cases hnext
  | _ => cases hnext; rfl

/-- Behind `kill` the child is not in its own code any more, unless the signal
is on its way. -/
theorem Story.interruptible {s : State} (hstory : Story s) (hsent : Sent s)
    (hchild : s.child.Interruptible) : s.signal ≠ .none := by
  rcases s with ⟨parent, child, signal, output⟩
  cases hstory.together with
  | start => simp [Sent] at hsent
  | forkFailed => simp [Sent] at hsent
  | before hparent _ =>
      rcases hparent with rfl | rfl | rfl | rfl <;> simp [Sent] at hsent
  | sent _ hsignal => exact hsignal
  | stopping _ hnot => exact absurd hchild hnot
  | ended _ hended =>
      rcases hended with rfl | rfl <;> simp [Child.Interruptible] at hchild

/-- A call of the child uses up the time that it has before the signal is due,
or brings it forward in the handler. -/
theorem Story.rank_child {s : State} (hstory : Story s) (hsent : Sent s)
    {next : Child} {lines : List Line}
    (hnext : s.child.next = some (next, lines))
    (hfree : ¬(s.signal = .due ∧ s.child.Interruptible)) :
    next.rank + s.signal.afterCall.rank + 1 ≤ s.child.rank + s.signal.rank := by
  by_cases hchild : s.child.Interruptible
  · have hrank := Child.next_rank_of_interruptible hnext hchild
    have hsignal := hstory.interruptible hsent hchild
    cases hcase : s.signal with
    | none => exact absurd hcase hsignal
    | due => exact absurd ⟨hcase, hchild⟩ hfree
    | sent =>
        rw [hrank]
        exact le_rfl
  · have hrank := Child.next_rank hnext hchild
    have hsignal : s.signal.afterCall.rank ≤ s.signal.rank := by
      cases s.signal with
      | none => exact le_rfl
      | due => exact le_rfl
      | sent => exact Nat.zero_le _
    omega

theorem Sent.step {s t : State} {label : Label} (hsent : Sent s)
    (hstory : Story s) (hstep : step s label = some t) :
    Sent t ∧ rank t + 1 ≤ rank s := by
  rcases s with ⟨parent, child, signal, output⟩
  cases label with
  | parent =>
      rcases hsent with rfl | rfl | rfl
      · simp only [Shutdown.step, Shutdown.stepParent] at hstep
        split_ifs at hstep
        cases hstep
        exact ⟨by simp [Sent], by simp [rank, Parent.rank]⟩
      · cases hstep
        exact ⟨by simp [Sent], by simp [rank, Parent.rank, State.puts]⟩
      · cases hstep
  | parentFails =>
      rcases hsent with rfl | rfl | rfl <;> cases hstep
  | child =>
      simp only [Shutdown.step, Shutdown.stepChild] at hstep
      split_ifs at hstep with hfree
      rcases Option.map_eq_some_iff.mp hstep with ⟨⟨next, lines⟩, hnext, rfl⟩
      have hrank := hstory.rank_child hsent hnext hfree
      refine ⟨hsent, ?_⟩
      simp only [rank] at hrank ⊢
      omega
  | deliver =>
      simp only [Shutdown.step, Shutdown.stepDeliver] at hstep
      split_ifs at hstep with hguard hhandler
      · cases hstep
        obtain rfl : child = .setHandler := hhandler
        exact ⟨hsent, by simp [rank, Child.rank, Signal.rank]; omega⟩
      · cases hstep
        refine ⟨hsent, ?_⟩
        rcases hguard.2 with rfl | rfl | rfl <;>
        simp [rank, Child.rank, Signal.rank]

/-- Behind `kill` some step is possible until the parent is at its end. -/
theorem Sent.progress {s : State} (hsent : Sent s) (hstory : Story s)
    (hstuck : ∀ label, Shutdown.step s label = none) :
    s.parent = .exited := by
  rcases s with ⟨parent, child, signal, output⟩
  rcases hsent with rfl | rfl | hexited
  · exfalso
    cases hstory.together with
    | before hparent _ => simp at hparent
    | sent hchild hsignal =>
        have hdeliver := hstuck .deliver
        simp [Shutdown.step, Shutdown.stepDeliver, hchild, hsignal] at hdeliver
    | stopping habsent hchild =>
        have hparent := hstuck .parent
        have hnext := hstuck .child
        simp only [Shutdown.step, Shutdown.stepParent, ite_eq_right_iff,
          reduceCtorEq, imp_false] at hparent
        cases child <;>
        simp_all [Shutdown.step, Shutdown.stepChild, Child.next, Child.Ended,
          Child.Interruptible]
    | ended hparent _ => simp at hparent
  · have hparent := hstuck .parent
    simp [Shutdown.step, Shutdown.stepParent] at hparent
  · exact hexited

theorem rank_le (s : State) : rank s ≤ 8 := by
  have hparent : s.parent.rank ≤ 2 := by
    cases s.parent <;> simp [Parent.rank]
  have hchild : s.child.rank ≤ 5 := by
    cases s.child <;> simp [Child.rank]
  have hsignal : s.signal.rank ≤ 1 := by
    cases s.signal <;> simp [Signal.rank]
  unfold rank
  omega

/-- Once the signal has been sent the run has eight more steps at most, and it
does not stop before the parent has said that the child has terminated. -/
theorem kill_terminates {before after : List Label} {s t : State}
    (hbefore : run step initial before = some s) (hsent : Sent s)
    (hafter : run step s after = some t) :
    after.length ≤ 8 ∧
      ((∀ label, step t label = none) → .childTerminated ∈ t.output) := by
  have hstart : Sent s ∧ Story s := ⟨hsent, run_story hbefore⟩
  have hkeep : ∀ s label t, Sent s ∧ Story s → step s label = some t →
      Sent t ∧ Story t := fun _ _ _ hinv hstep =>
    ⟨(hinv.1.step hinv.2 hstep).1, hinv.2.step hstep⟩
  constructor
  · have hcount := @run_countP_add_rank_le State Label step
      (fun s => Sent s ∧ Story s) (fun _ => True) (fun _ => true) rank
      (fun s label t _ => hkeep s label t)
      (fun _ _ _ _ hinv hstep => (hinv.1.step hinv.2 hstep).2)
      after (fun _ _ => trivial) s t hstart hafter
    rw [List.countP_true] at hcount
    have hrank := rank_le s
    omega
  · intro hstuck
    obtain ⟨hsentT, hstory⟩ : Sent t ∧ Story t :=
      run_invariant hkeep hstart hafter
    exact hstory.childTerminated_mem_iff.mpr (hsentT.progress hstory hstuck)

theorem terminated_last_nap :
    ∃ s, run step initial
        [.parent, .parent, .child, .child, .child, .parent, .parent, .deliver,
          .child, .child, .child, .child, .parent, .parent] = some s ∧
      (s.child = .killed ∧ s.output = [.parentSleeping, .childTerminated] ∨
        s.child = .exited ∧ ∃ before naps,
          s.output = before ++ [.childTerminated] ∧
          parentLines before = [.parentSleeping] ∧
          childLines before = List.replicate naps .wokeUp ++
            [.receivedSignal sigterm, .aboutToTerminate, .terminatingNow]) := by
  have hsaid : (run step initial
      [.parent, .parent, .child, .child, .child, .parent, .parent, .deliver,
        .child, .child, .child, .child, .parent, .parent]).map
        (fun s => decide (.childTerminated ∈ s.output)) = some true := by
    decide
  rcases Option.map_eq_some_iff.mp hsaid with ⟨s, hrun, hmem⟩
  exact ⟨s, hrun, terminated_last hrun (of_decide_eq_true hmem)⟩

theorem kill_terminates_early :
    ∃ s t, run step initial [.parent, .parent, .parent, .parent] = some s ∧
      run step s [.deliver, .parent, .parent] = some t ∧
      ((∀ label, step t label = none) → .childTerminated ∈ t.output) := by
  have hbefore : ∃ s, run step initial [.parent, .parent, .parent, .parent] =
      some s ∧ Sent s ∧ (run step s [.deliver, .parent, .parent]).isSome :=
    ⟨_, rfl, Or.inl rfl, rfl⟩
  rcases hbefore with ⟨s, hbefore, hsent, hsome⟩
  rcases Option.isSome_iff_exists.mp hsome with ⟨t, hafter⟩
  exact ⟨s, t, hbefore, hafter, (kill_terminates hbefore hsent hafter).2⟩

end Miscellaneous.Shutdown
