import Mathlib.Tactic

/-!
# Runs of a guarded step function

A step function answers a label with the next state, or with `none` when the
label is not possible in the state.  A run follows a list of labels.  What
one step preserves, every run preserves; a quantity which no step raises and
which some labels lower bounds the number of those labels in a run.
-/

namespace GuardedRuns

variable {State Label : Type*} (step : State → Label → Option State)

def run (state : State) (labels : List Label) : Option State :=
  labels.foldlM step state

def Reachable (initial state : State) : Prop :=
  ∃ labels, run step initial labels = some state

/-- Every step of a run meets a condition on its label and the state before
it. -/
def StepsMeet (Admits : State → Label → Prop) : State → List Label → Prop
  | _, [] => True
  | state, label :: labels =>
      Admits state label ∧
        ∀ next, step state label = some next → StepsMeet Admits next labels

instance StepsMeet.decidable {Admits : State → Label → Prop}
    [hadmits : ∀ state label, Decidable (Admits state label)] :
    ∀ state labels, Decidable (StepsMeet step Admits state labels)
  | _, [] => isTrue trivial
  | state, label :: labels =>
      match hstep : step state label with
      | none =>
          decidable_of_iff (Admits state label) (by simp [StepsMeet, hstep])
      | some next =>
          match hadmits state label, StepsMeet.decidable next labels with
          | isTrue hfirst, isTrue hmore =>
              isTrue ⟨hfirst, by simpa [hstep] using hmore⟩
          | isFalse hfirst, _ => isFalse fun h => hfirst h.1
          | _, isFalse hmore => isFalse fun h => hmore (h.2 next hstep)

@[simp] theorem run_nil (state : State) : run step state [] = some state :=
  rfl

theorem run_cons (state : State) (label : Label) (labels : List Label) :
    run step state (label :: labels) =
      (step state label).bind fun next => run step next labels := rfl

theorem run_append (state : State) (labels more : List Label) :
    run step state (labels ++ more) =
      (run step state labels).bind fun next => run step next more := by
  simp [run, List.foldlM_append, bind]

variable {step}

theorem StepsMeet.of_forall {Admits : State → Label → Prop}
    (hadmits : ∀ state label, Admits state label) (state : State)
    (labels : List Label) : StepsMeet step Admits state labels := by
  induction labels generalizing state with
  | nil => trivial
  | cons label labels ih => exact ⟨hadmits state label, fun next _ => ih next⟩

theorem run_cons_eq_some {state final : State} {label : Label}
    {labels : List Label} :
    run step state (label :: labels) = some final ↔
      ∃ next, step state label = some next ∧
        run step next labels = some final := by
  rw [run_cons, Option.bind_eq_some_iff]

/-- An invariant of the steps with the admitted labels is an invariant of
the runs over admitted labels. -/
theorem run_invariant_of_admitted {P : State → Prop} {Admitted : Label → Prop}
    (hstep : ∀ state label next, Admitted label → P state →
      step state label = some next → P next)
    {labels : List Label} (hlabels : ∀ label ∈ labels, Admitted label)
    {state final : State} (hstate : P state)
    (hrun : run step state labels = some final) : P final := by
  induction labels generalizing state with
  | nil =>
      rw [run_nil, Option.some.injEq] at hrun
      exact hrun ▸ hstate
  | cons label rest ih =>
      rcases run_cons_eq_some.mp hrun with ⟨next, hnext, hrest⟩
      have hadmitted : Admitted label := hlabels label (by simp)
      exact ih (fun other hother => hlabels other (by simp [hother]))
        (hstep state label next hadmitted hstate hnext) hrest

theorem run_invariant {P : State → Prop}
    (hstep : ∀ state label next, P state →
      step state label = some next → P next)
    {labels : List Label} {state final : State} (hstate : P state)
    (hrun : run step state labels = some final) : P final :=
  @run_invariant_of_admitted State Label step P (fun _ => True)
    (fun state label next _ => hstep state label next) labels
    (fun _ _ => trivial) state final hstate hrun

theorem run_invariant_of_stepsMeet {P : State → Prop}
    {Admits : State → Label → Prop}
    (hstep : ∀ state label next, Admits state label → P state →
      step state label = some next → P next)
    {labels : List Label} {state final : State}
    (hmeet : StepsMeet step Admits state labels) (hstate : P state)
    (hrun : run step state labels = some final) : P final := by
  induction labels generalizing state with
  | nil =>
      rw [run_nil, Option.some.injEq] at hrun
      exact hrun ▸ hstate
  | cons label rest ih =>
      rcases run_cons_eq_some.mp hrun with ⟨next, hnext, hrest⟩
      rcases hmeet with ⟨hadmits, hmore⟩
      exact ih (hmore next hnext) (hstep state label next hadmits hstate hnext)
        hrest

/-- If no admitted step raises the rank and the counted ones lower it, then a
run has no more counted labels than the rank it starts from. -/
theorem run_countP_add_rank_le {P : State → Prop} {Admitted : Label → Prop}
    {counted : Label → Bool} {rank : State → ℕ}
    (hstep : ∀ state label next, Admitted label → P state →
      step state label = some next → P next)
    (hrank : ∀ state label next, Admitted label → P state →
      step state label = some next →
        rank next + (if counted label then 1 else 0) ≤ rank state)
    {labels : List Label} (hlabels : ∀ label ∈ labels, Admitted label)
    {state final : State} (hstate : P state)
    (hrun : run step state labels = some final) :
    rank final + labels.countP counted ≤ rank state := by
  induction labels generalizing state with
  | nil =>
      rw [run_nil, Option.some.injEq] at hrun
      simp [hrun]
  | cons label rest ih =>
      rcases run_cons_eq_some.mp hrun with ⟨next, hnext, hrest⟩
      have hadmitted : Admitted label := hlabels label (by simp)
      have hfirst := hrank state label next hadmitted hstate hnext
      have hothers := ih (fun other hother => hlabels other (by simp [hother]))
        (hstep state label next hadmitted hstate hnext) hrest
      rw [List.countP_cons]
      omega

/-- If a state which is not final always admits a step, and the steps lower
the rank, then some run ends in a final state. -/
theorem exists_run_to_final {P : State → Prop} {Admitted : Label → Prop}
    {Final : State → Prop} {rank : State → ℕ}
    (hstep : ∀ state label next, Admitted label → P state →
      step state label = some next → P next)
    (hrank : ∀ state label next, Admitted label → P state →
      step state label = some next → rank next < rank state)
    (hprogress : ∀ state, P state → ¬Final state →
      ∃ label next, Admitted label ∧ step state label = some next)
    {state : State} (hstate : P state) :
    ∃ labels final, (∀ label ∈ labels, Admitted label) ∧
      run step state labels = some final ∧ Final final := by
  induction hsize : rank state using Nat.strong_induction_on
    generalizing state with
  | _ size ih =>
      by_cases hfinal : Final state
      · exact ⟨[], state, by simp, rfl, hfinal⟩
      · rcases hprogress state hstate hfinal with
          ⟨label, next, hadmitted, hnext⟩
        have hlower : rank next < size :=
          hsize ▸ hrank state label next hadmitted hstate hnext
        rcases ih _ hlower (hstep state label next hadmitted hstate hnext) rfl
          with ⟨labels, final, hlabels, hrun, hdone⟩
        refine ⟨label :: labels, final, ?_, ?_, hdone⟩
        · simpa using ⟨hadmitted, hlabels⟩
        · exact run_cons_eq_some.mpr ⟨next, hnext, hrun⟩

theorem Reachable.invariant {P : State → Prop} {initial state : State}
    (hinitial : P initial)
    (hstep : ∀ state label next, P state →
      step state label = some next → P next)
    (hreachable : Reachable step initial state) : P state := by
  rcases hreachable with ⟨labels, hrun⟩
  exact run_invariant hstep hinitial hrun

theorem Reachable.run {initial state final : State} {labels : List Label}
    (hreachable : Reachable step initial state)
    (hrun : run step state labels = some final) :
    Reachable step initial final := by
  rcases hreachable with ⟨before, hbefore⟩
  refine ⟨before ++ labels, ?_⟩
  rw [run_append, hbefore]
  exact hrun

theorem Reachable.extend {initial state final : State} {label : Label}
    (hreachable : Reachable step initial state)
    (hstep : step state label = some final) :
    Reachable step initial final := by
  have hrun : GuardedRuns.run step state [label] = some final := by
    rw [run_cons, hstep]
    rfl
  exact hreachable.run hrun

/-- A run is empty or has a last step. -/
theorem Reachable.eq_or_last {initial state : State}
    (hreachable : Reachable step initial state) :
    state = initial ∨
      ∃ before label, Reachable step initial before ∧
        step before label = some state := by
  rcases hreachable with ⟨labels, hrun⟩
  rcases List.eq_nil_or_concat labels with rfl | ⟨first, label, rfl⟩
  · rw [run_nil, Option.some.injEq] at hrun
    exact Or.inl hrun.symm
  · rw [List.concat_eq_append, run_append, Option.bind_eq_some_iff] at hrun
    rcases hrun with ⟨before, hbefore, hlast⟩
    rcases run_cons_eq_some.mp hlast with ⟨next, hnext, hdone⟩
    rw [run_nil, Option.some.injEq] at hdone
    exact Or.inr ⟨before, label, ⟨first, hbefore⟩, hdone ▸ hnext⟩

/-- What holds at the end of a run holds at its end if it has one. -/
theorem exists_run_and {P : State → Prop} {state : State}
    {labels : List Label} (hsome : (run step state labels).isSome)
    (hfinal : ∀ final, run step state labels = some final → P final) :
    ∃ final, run step state labels = some final ∧ P final := by
  obtain ⟨final, hrun⟩ := Option.isSome_iff_exists.mp hsome
  exact ⟨final, hrun, hfinal final hrun⟩

/-! ## Runs with a record -/

section Recording

variable {Record : Type*}

/-- A step together with what it notes in a record. -/
def recording (step : State → Label → Option State)
    (note : Record → State → Label → Record) (entry : State × Record)
    (label : Label) : Option (State × Record) :=
  (step entry.1 label).map fun next => (next, note entry.2 entry.1 label)

variable {note : Record → State → Label → Record}

theorem recording_eq_some {entry final : State × Record} {label : Label} :
    recording step note entry label = some final ↔
      step entry.1 label = some final.1 ∧
        final.2 = note entry.2 entry.1 label := by
  unfold recording
  rw [Option.map_eq_some_iff]
  constructor
  · rintro ⟨next, hnext, rfl⟩
    exact ⟨hnext, rfl⟩
  · rintro ⟨hnext, hrecord⟩
    exact ⟨final.1, hnext, by rw [← hrecord]⟩

/-- Without their records these are the runs of the steps themselves. -/
theorem exists_run_recording_iff {state final : State} {record : Record}
    {labels : List Label} :
    (∃ record', run (recording step note) (state, record) labels =
        some (final, record')) ↔
      run step state labels = some final := by
  induction labels generalizing state record with
  | nil => simp
  | cons label labels ih =>
      constructor
      · rintro ⟨record', hrun⟩
        rcases run_cons_eq_some.mp hrun with ⟨⟨next, noted⟩, hnext, hrest⟩
        exact run_cons_eq_some.mpr
          ⟨next, (recording_eq_some.mp hnext).1, ih.mp ⟨record', hrest⟩⟩
      · intro hrun
        rcases run_cons_eq_some.mp hrun with ⟨next, hnext, hrest⟩
        rcases ih.mpr hrest with ⟨record', hrecorded⟩
        exact ⟨record', run_cons_eq_some.mpr
          ⟨_, recording_eq_some.mpr ⟨hnext, rfl⟩, hrecorded⟩⟩

end Recording

end GuardedRuns
