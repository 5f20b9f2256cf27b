import Mathlib.Tactic

/-!
# Actions that may fail

An action changes a state and returns a value or fails; the changes that it has
made before it fails stay.  Its outcome is read off its parts, and a relation
between states that is reflexive and transitive holds between the first and
the last state of an action if it does for the parts.
-/

namespace FailingActions

abbrev Action (σ ε α : Type) := ExceptT ε (StateM σ) α

variable {σ τ ε α β : Type}

/-- The result of an action and the state that it leaves. -/
def outcome (action : Action σ ε α) (state : σ) : Except ε α × σ :=
  action.run.run state

/-- An action on a part of the state. -/
def zoom (get : σ → τ) (set : τ → σ → σ) (action : Action τ ε α) :
    Action σ ε α :=
  ExceptT.mk fun state =>
    ((outcome action (get state)).1, set (outcome action (get state)).2 state)

@[simp] theorem outcome_pure (value : α) (state : σ) :
    outcome (pure value : Action σ ε α) state = (.ok value, state) := rfl

@[simp] theorem outcome_throw (error : ε) (state : σ) :
    outcome (throw error : Action σ ε α) state = (.error error, state) := rfl

@[simp] theorem outcome_lift (result : Except ε α) (state : σ) :
    outcome (liftM result : Action σ ε α) state = (result, state) := rfl

@[simp] theorem outcome_get (state : σ) :
    outcome (get : Action σ ε σ) state = (.ok state, state) := rfl

@[simp] theorem outcome_modify (f : σ → σ) (state : σ) :
    outcome (modify f : Action σ ε PUnit) state = (.ok ⟨⟩, f state) := rfl

@[simp] theorem outcome_zoom (get : σ → τ) (set : τ → σ → σ)
    (action : Action τ ε α) (state : σ) :
    outcome (zoom get set action) state =
      ((outcome action (get state)).1,
        set (outcome action (get state)).2 state) := rfl

theorem outcome_bind (action : Action σ ε α) (next : α → Action σ ε β)
    (state : σ) :
    outcome (action >>= next) state =
      match outcome action state with
      | (.ok value, middle) => outcome (next value) middle
      | (.error error, middle) => (.error error, middle) := by
  rw [outcome, ExceptT.run_bind, StateT.run_bind]
  change (match (outcome action state).1 with
    | .ok value => (next value).run
    | .error error => Pure.pure (.error error)) (outcome action state).2 = _
  rcases outcome action state with ⟨error | value, middle⟩
  · rfl
  · rfl

theorem outcome_bind_of_ok {action : Action σ ε α} {next : α → Action σ ε β}
    {state middle : σ} {value : α}
    (haction : outcome action state = (.ok value, middle)) :
    outcome (action >>= next) state = outcome (next value) middle := by
  rw [outcome_bind, haction]

theorem outcome_bind_of_error {action : Action σ ε α}
    {next : α → Action σ ε β} {state middle : σ} {error : ε}
    (haction : outcome action state = (.error error, middle)) :
    outcome (action >>= next) state = (.error error, middle) := by
  rw [outcome_bind, haction]

theorem outcome_bind_eq_ok_iff {action : Action σ ε α}
    {next : α → Action σ ε β} {state final : σ} {result : β} :
    outcome (action >>= next) state = (.ok result, final) ↔
      ∃ value middle, outcome action state = (.ok value, middle) ∧
        outcome (next value) middle = (.ok result, final) := by
  rw [outcome_bind]
  rcases outcome action state with ⟨error | value, middle⟩
  · simp
  · simp

theorem outcome_bind_eq_error_iff {action : Action σ ε α}
    {next : α → Action σ ε β} {state final : σ} {error : ε} :
    outcome (action >>= next) state = (.error error, final) ↔
      outcome action state = (.error error, final) ∨
        ∃ value middle, outcome action state = (.ok value, middle) ∧
          outcome (next value) middle = (.error error, final) := by
  rw [outcome_bind]
  rcases outcome action state with ⟨error | value, middle⟩
  · simp
  · simp

theorem outcome_lift_bind_of_ok {result : Except ε α} {value : α}
    (hresult : result = .ok value) (next : α → Action σ ε β) (state : σ) :
    outcome (liftM result >>= next) state = outcome (next value) state := by
  rw [hresult, outcome_bind_of_ok (outcome_lift _ _)]

theorem outcome_lift_bind_eq_ok_iff {result : Except ε α}
    {next : α → Action σ ε β} {state final : σ} {last : β} :
    outcome (liftM result >>= next) state = (.ok last, final) ↔
      ∃ value, result = .ok value ∧
        outcome (next value) state = (.ok last, final) := by
  rw [outcome_bind, outcome_lift]
  cases result with
  | error error => simp
  | ok value => simp

theorem outcome_lift_bind_eq_error_iff {result : Except ε α}
    {next : α → Action σ ε β} {state final : σ} {error : ε} :
    outcome (liftM result >>= next) state = (.error error, final) ↔
      (result = .error error ∧ state = final) ∨
        ∃ value, result = .ok value ∧
          outcome (next value) state = (.error error, final) := by
  rw [outcome_bind, outcome_lift]
  cases result with
  | error other => simp
  | ok value => simp

/-! ## What actions keep -/

/-- The relation holds between the state before and the state after. -/
def Keeps (R : σ → σ → Prop) (action : Action σ ε α) : Prop :=
  ∀ state, R state (outcome action state).2

section Keeps

variable {R : σ → σ → Prop}

theorem Keeps.pure (hrefl : ∀ state, R state state) (value : α) :
    Keeps R (pure value : Action σ ε α) := hrefl

theorem Keeps.lift (hrefl : ∀ state, R state state) (result : Except ε α) :
    Keeps R (liftM result : Action σ ε α) := hrefl

theorem relates_bind (htrans : ∀ a b c, R a b → R b c → R a c)
    {action : Action σ ε α} {next : α → Action σ ε β} {state : σ}
    (hfirst : R state (outcome action state).2)
    (hnext : ∀ value middle, outcome action state = (.ok value, middle) →
      R middle (outcome (next value) middle).2) :
    R state (outcome (action >>= next) state).2 := by
  rw [outcome_bind]
  generalize outcome action state = first at hfirst hnext ⊢
  rcases first with ⟨error | value, middle⟩
  · exact hfirst
  · exact htrans _ _ _ hfirst (hnext value middle rfl)

theorem Keeps.bind (htrans : ∀ a b c, R a b → R b c → R a c)
    {action : Action σ ε α} {next : α → Action σ ε β}
    (haction : Keeps R action) (hnext : ∀ value, Keeps R (next value)) :
    Keeps R (action >>= next) := fun state =>
  relates_bind htrans (haction state) fun value middle _ => hnext value middle

theorem relates_lift_bind (hrefl : ∀ state, R state state)
    {result : Except ε α} {next : α → Action σ ε β} {state : σ}
    (hnext : ∀ value, result = .ok value → R state (outcome (next value) state).2) :
    R state (outcome (liftM result >>= next) state).2 := by
  cases result with
  | error error => exact hrefl state
  | ok value => exact hnext value rfl

theorem Keeps.lift_bind (hrefl : ∀ state, R state state)
    {result : Except ε α} {next : α → Action σ ε β}
    (hnext : ∀ value, result = .ok value → Keeps R (next value)) :
    Keeps R (liftM result >>= next) := fun state =>
  relates_lift_bind hrefl fun value hvalue => hnext value hvalue state

theorem forM_cons (item : β) (items : List β) (body : β → Action σ ε PUnit) :
    (item :: items).forM body = body item >>= fun _ => items.forM body := rfl

theorem forM_append_eq_ok_iff {before after : List β}
    {body : β → Action σ ε PUnit} {state final : σ} :
    outcome ((before ++ after).forM body) state = (.ok ⟨⟩, final) ↔
      ∃ middle, outcome (before.forM body) state = (.ok ⟨⟩, middle) ∧
        outcome (after.forM body) middle = (.ok ⟨⟩, final) := by
  induction before generalizing state with
  | nil =>
      constructor
      · intro hloop
        exact ⟨state, rfl, hloop⟩
      · rintro ⟨middle, hnone, hloop⟩
        cases hnone
        exact hloop
  | cons item before ih =>
      rw [List.cons_append, forM_cons, forM_cons, outcome_bind_eq_ok_iff]
      simp only [outcome_bind_eq_ok_iff, ih]
      constructor
      · rintro ⟨value, next, hfirst, middle, hrest, hloop⟩
        exact ⟨middle, ⟨value, next, hfirst, hrest⟩, hloop⟩
      · rintro ⟨middle, ⟨value, next, hfirst, hrest⟩, hloop⟩
        exact ⟨value, next, hfirst, middle, hrest, hloop⟩

/-- A body whose success does not depend on the state succeeds for all items. -/
theorem exists_forM_eq_ok_iff {items : List β} {body : β → Action σ ε PUnit}
    {P : β → Prop}
    (hbody : ∀ item state,
      (∃ final, outcome (body item) state = (.ok ⟨⟩, final)) ↔ P item)
    {state : σ} :
    (∃ final, outcome (items.forM body) state = (.ok ⟨⟩, final)) ↔
      ∀ item ∈ items, P item := by
  induction items generalizing state with
  | nil =>
      constructor
      · intro _ item hitem
        cases hitem
      · intro _
        exact ⟨state, rfl⟩
  | cons item items ih =>
      rw [List.forall_mem_cons, ← hbody item state]
      constructor
      · rintro ⟨final, hloop⟩
        rw [forM_cons, outcome_bind_eq_ok_iff] at hloop
        rcases hloop with ⟨_, middle, hfirst, hmore⟩
        exact ⟨⟨middle, hfirst⟩, ih.mp ⟨final, hmore⟩⟩
      · rintro ⟨⟨middle, hfirst⟩, hmore⟩
        rcases (@ih middle).mpr hmore with ⟨final, hrest⟩
        refine ⟨final, ?_⟩
        rw [forM_cons, outcome_bind_of_ok hfirst]
        exact hrest

theorem forM_eq_error_iff {items : List β} {body : β → Action σ ε PUnit}
    {state final : σ} {error : ε} :
    outcome (items.forM body) state = (.error error, final) ↔
      ∃ before item after middle, items = before ++ item :: after ∧
        outcome (before.forM body) state = (.ok ⟨⟩, middle) ∧
        outcome (body item) middle = (.error error, final) := by
  induction items generalizing state with
  | nil =>
      constructor
      · intro hloop
        cases hloop
      · rintro ⟨before, item, after, middle, hsplit, _⟩
        simp at hsplit
  | cons first items ih =>
      rw [forM_cons, outcome_bind_eq_error_iff]
      constructor
      · rintro (hfirst | ⟨_, middle, hfirst, hmore⟩)
        · exact ⟨[], first, items, state, rfl, rfl, hfirst⟩
        · rcases ih.mp hmore with ⟨before, item, after, last, hsplit, hrun, hfail⟩
          refine ⟨first :: before, item, after, last, by simp [hsplit], ?_, hfail⟩
          rw [forM_cons, outcome_bind_of_ok hfirst]
          exact hrun
      · rintro ⟨before, item, after, last, hsplit, hrun, hfail⟩
        cases before with
        | nil =>
            rw [List.nil_append, List.cons.injEq] at hsplit
            cases hrun
            left
            rw [hsplit.1]
            exact hfail
        | cons other before =>
            rw [List.cons_append, List.cons.injEq] at hsplit
            rw [forM_cons, outcome_bind_eq_ok_iff] at hrun
            rcases hrun with ⟨_, middle, hfirst, hmore⟩
            right
            refine ⟨⟨⟩, middle, hsplit.1 ▸ hfirst, ?_⟩
            exact ih.mpr ⟨before, item, after, last, hsplit.2, hmore, hfail⟩

theorem Keeps.forM (hrefl : ∀ state, R state state)
    (htrans : ∀ a b c, R a b → R b c → R a c) {items : List β}
    {body : β → Action σ ε PUnit} (hbody : ∀ item ∈ items, Keeps R (body item)) :
    Keeps R (items.forM body) := by
  induction items with
  | nil => exact Keeps.pure hrefl _
  | cons item items ih =>
      rw [forM_cons]
      apply Keeps.bind htrans (hbody item List.mem_cons_self)
      intro _
      exact ih fun other hother => hbody other (List.mem_cons_of_mem _ hother)

theorem exists_of_forM_eq_ok (hrefl : ∀ state, R state state)
    (htrans : ∀ a b c, R a b → R b c → R a c) {items : List β}
    {body : β → Action σ ε PUnit} (hbody : ∀ item ∈ items, Keeps R (body item))
    {state final : σ} {result : PUnit}
    (hloop : outcome (items.forM body) state = (.ok result, final))
    {item : β} (hitem : item ∈ items) :
    ∃ before after, R state before ∧
      outcome (body item) before = (.ok ⟨⟩, after) ∧ R after final := by
  induction items generalizing state with
  | nil => cases hitem
  | cons first items ih =>
      rw [forM_cons, outcome_bind_eq_ok_iff] at hloop
      rcases hloop with ⟨_, middle, hfirst, hmore⟩
      have hrest : ∀ other ∈ items, Keeps R (body other) :=
        fun other hother => hbody other (List.mem_cons_of_mem _ hother)
      have hkeeps := hbody first List.mem_cons_self state
      rw [hfirst] at hkeeps
      rcases List.mem_cons.mp hitem with hsame | hmem
      · subst hsame
        have hfinal := Keeps.forM hrefl htrans hrest middle
        rw [hmore] at hfinal
        exact ⟨state, middle, hrefl state, hfirst, hfinal⟩
      · rcases ih hrest hmore hmem with ⟨before, after, hbefore, hrun, hafter⟩
        exact ⟨before, after, htrans _ _ _ hkeeps hbefore, hrun, hafter⟩

end Keeps

end FailingActions
