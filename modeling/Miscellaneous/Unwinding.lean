import Miscellaneous.FailingActions
import Mathlib.Tactic

/-!
# Requests that do not see each other

A server handles one request after the other and goes on after a request that
failed.  If the requests of one kind cannot tell related states apart, and the
others leave related states related, then the first get the replies, and leave
what they see of the state, as if the others had not been there.
-/

namespace FailingActions

variable {σ ι ε α β : Type}

/-- In related states the action has the same result, and it leaves related
states. -/
def Agrees (R : σ → σ → Prop) (action : Action σ ε α) : Prop :=
  ∀ first second, R first second →
    (outcome action first).1 = (outcome action second).1 ∧
      R (outcome action first).2 (outcome action second).2

section Agrees

variable {R : σ → σ → Prop}

theorem Agrees.pure (value : α) : Agrees R (pure value : Action σ ε α) :=
  fun _ _ hrelated => ⟨rfl, hrelated⟩

theorem Agrees.throw (error : ε) : Agrees R (throw error : Action σ ε α) :=
  fun _ _ hrelated => ⟨rfl, hrelated⟩

theorem agrees_bind {action other : Action σ ε α}
    {next more : α → Action σ ε β} {first second : σ}
    (hresult : (outcome action first).1 = (outcome other second).1)
    (hrelated : R (outcome action first).2 (outcome other second).2)
    (hnext : ∀ value first second, R first second →
      (outcome (next value) first).1 = (outcome (more value) second).1 ∧
        R (outcome (next value) first).2 (outcome (more value) second).2) :
    (outcome (action >>= next) first).1 =
        (outcome (other >>= more) second).1 ∧
      R (outcome (action >>= next) first).2
        (outcome (other >>= more) second).2 := by
  rw [outcome_bind, outcome_bind]
  generalize outcome action first = one at hresult hrelated ⊢
  generalize outcome other second = two at hresult hrelated ⊢
  rcases one with ⟨result, middle⟩
  rcases two with ⟨result', middle'⟩
  cases hresult
  cases result with
  | error error => exact ⟨rfl, hrelated⟩
  | ok value => exact hnext value middle middle' hrelated

theorem Agrees.bind {action : Action σ ε α} {next : α → Action σ ε β}
    (haction : Agrees R action) (hnext : ∀ value, Agrees R (next value)) :
    Agrees R (action >>= next) := by
  intro first second hrelated
  obtain ⟨hresult, hmiddle⟩ := haction first second hrelated
  exact agrees_bind hresult hmiddle hnext

theorem Agrees.lift_bind {result : Except ε α} {next : α → Action σ ε β}
    (hnext : ∀ value, Agrees R (next value)) :
    Agrees R (liftM result >>= next) :=
  Agrees.bind (fun _ _ hrelated => ⟨rfl, hrelated⟩) hnext

theorem Agrees.get_bind {next : σ → Action σ ε β}
    (hnext : ∀ first second, R first second →
      (outcome (next first) first).1 = (outcome (next second) second).1 ∧
        R (outcome (next first) first).2 (outcome (next second) second).2) :
    Agrees R (get >>= next) := by
  intro first second hrelated
  rw [outcome_bind_of_ok (outcome_get first),
    outcome_bind_of_ok (outcome_get second)]
  exact hnext first second hrelated

theorem Agrees.forM {items : List β} {body : β → Action σ ε PUnit}
    (hbody : ∀ item, Agrees R (body item)) : Agrees R (items.forM body) := by
  induction items with
  | nil => exact Agrees.pure _
  | cons item items ih =>
      rw [forM_cons]
      exact (hbody item).bind fun _ => ih

end Agrees

/-! ## A server -/

section Server

variable (handle : ι → Action σ ε PUnit)

def stateAfter (state : σ) (requests : List ι) : σ :=
  requests.foldl (fun state request => (outcome (handle request) state).2) state

/-- The requests with their replies. -/
def replies : σ → List ι → List (ι × Except ε PUnit)
  | _, [] => []
  | state, request :: requests =>
      (request, (outcome (handle request) state).1) ::
        replies (outcome (handle request) state).2 requests

variable {handle} {R : σ → σ → Prop}

/-- The requests of one kind, among all and alone. -/
theorem unwinding {mine : ι → Bool}
    (hagrees : ∀ request, mine request = true → Agrees R (handle request))
    (hkeeps : ∀ request, mine request = false → ∀ first second,
      R first second → R (outcome (handle request) first).2 second)
    {first second : σ} (hrelated : R first second) (requests : List ι) :
    R (stateAfter handle first requests)
        (stateAfter handle second (requests.filter mine)) ∧
      (replies handle first requests).filter (fun reply => mine reply.1) =
        replies handle second (requests.filter mine) := by
  induction requests generalizing first second with
  | nil => exact ⟨hrelated, rfl⟩
  | cons request requests ih =>
      cases hmine : mine request with
      | true =>
          obtain ⟨hreply, hmiddle⟩ :=
            hagrees request hmine first second hrelated
          obtain ⟨hfinal, hreplies⟩ := ih hmiddle
          rw [List.filter_cons_of_pos hmine]
          refine ⟨hfinal, ?_⟩
          simp only [replies, List.filter_cons, hmine, if_true, hreplies,
            hreply]
      | false =>
          have hneg : ¬mine request = true := by simp [hmine]
          obtain ⟨hfinal, hreplies⟩ :=
            ih (hkeeps request hmine first second hrelated)
          rw [List.filter_cons_of_neg hneg]
          refine ⟨hfinal, ?_⟩
          simp only [replies, List.filter_cons, hmine, Bool.false_eq_true,
            if_false, hreplies]

end Server

end FailingActions
