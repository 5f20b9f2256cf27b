import Miscellaneous.GuardedRuns
import Miscellaneous.PriorityQueueIndices
import Mathlib.Tactic

/-!
# Sessions with positions of type `int`

An admissible session does all that is expected of a priority queue as long
as no `push` meets `2 ^ 31` elements and no `pop` sinks to a position whose
child indices overflow; the call that does ends what can be said about it.
-/

namespace Miscellaneous.PriorityQueue

open ArrayHeaps GuardedRuns

variable {T : Type*} (cmp : Comparison T)

/-- `Session.step` with the operations on `int` positions. -/
def Session.stepInt (session : Session T) : Call T → Option (Session T)
  | .push k =>
      (pushInt cmp session.heap k).map fun heap =>
        { session with heap := heap }
  | .pop => do
      let shown ← top session.heap
      let heap ← popInt cmp session.heap
      return ⟨heap, shown :: session.popped⟩
  | .top => (top session.heap).map fun _ => session
  | .empty => some session

def Session.new : Session T := ⟨#[], []⟩

def runCallsInt (calls : List (Call T)) : Option (Session T) :=
  run (Session.stepInt cmp) .new calls

/-- The positions that a call computes are in the range of `int`. -/
def PositionsFit (session : Session T) : Call T → Prop
  | .push _ => session.heap.size < 2 ^ 31
  | .pop => SinksInRange cmp session.heap
  | .top => True
  | .empty => True

variable {cmp}

/-- The calls take the elements `out`, in this order. -/
structure Session.Drains (cmp : Comparison T) (session after : Session T)
    (out : List T) : Prop where
  popped : after.popped = out.reverse ++ session.popped
  sorted : out.Pairwise fun first later => cmp.lt first later = false
  contents : (out : Multiset T) + after.heap.toList = session.heap.toList

/-- What is expected of a session after the calls `done` and before the calls
`rest`. -/
structure Session.Expected (cmp : Comparison T) (session : Session T)
    (done rest : List (Call T)) : Prop where
  ordered : ∀ i (_ : i < session.heap.size), 0 < i →
    cmp.ge session.heap[(i - 1) / 2] session.heap[i] = true
  contents : (session.heap.toList : Multiset T) + session.popped =
    pushedBy done
  greatest : 0 < session.heap.size →
    ∃ shown, top session.heap = some shown ∧
      (∀ x ∈ session.heap, cmp.lt shown x = false) ∧
      ∀ more, rest = .pop :: more →
        ∃ heap', popInt cmp session.heap = some heap' ∧
          (session.heap.toList : Multiset T) = shown ::ₘ heap'.toList
  drained : ∀ draining more, rest = draining ++ more →
    pushedBy draining = [] →
      ∃ after out, runCallsInt cmp (done ++ draining) = some after ∧
        session.Drains cmp after out

/-- After each of the calls the queue is as expected.  In particular no
operation has read outside the vector or computed a position which is not in
the range of `int`. -/
def Correct (cmp : Comparison T) (calls : List (Call T)) : Prop :=
  ∀ done rest, calls = done ++ rest →
    ∃ session, runCallsInt cmp done = some session ∧
      session.Expected cmp done rest

/-! ## One call -/

theorem Session.stepInt_eq_step (hlaw : cmp.Lawful) {session : Session T}
    (hheap : IsHeap cmp.NotLess session.heap)
    (hsize : session.heap.size ≤ 2 ^ 31) {call : Call T}
    (hfit : PositionsFit cmp session call) :
    session.stepInt cmp call = session.step cmp call := by
  cases call with
  | push k =>
      have hlt : session.heap.size < 2 ^ 31 := hfit
      simp only [Session.stepInt, Session.step]
      rw [pushInt_eq (by omega)]
  | pop =>
      simp only [Session.stepInt, Session.step]
      rw [popInt_eq_pop hlaw hheap hsize hfit]
  | top => rfl
  | empty => rfl

theorem Session.stepInt_eq_none (hlaw : cmp.Lawful) {session : Session T}
    (hheap : IsHeap cmp.NotLess session.heap)
    (hsize : session.heap.size ≤ 2 ^ 31) {call : Call T}
    (hfit : ¬PositionsFit cmp session call) :
    session.stepInt cmp call = none := by
  cases call with
  | push k =>
      have hfull : ¬session.heap.size < 2 ^ 31 := hfit
      have hnone : pushInt cmp session.heap k = none := by
        unfold pushInt
        simp only [Array.size_push, Nat.add_sub_cancel, if_neg hfull]
      simp [Session.stepInt, hnone]
  | pop =>
      simp [Session.stepInt, popInt_eq_none hlaw hheap hsize hfit]
  | top => exact absurd trivial hfit
  | empty => exact absurd trivial hfit

theorem PositionsFit.sizeAfter_le {session : Session T} {call : Call T}
    (hfit : PositionsFit cmp session call)
    (hsize : session.heap.size ≤ 2 ^ 31) :
    call.sizeAfter session.heap.size ≤ 2 ^ 31 := by
  cases call with
  | push k =>
      have hlt : session.heap.size < 2 ^ 31 := hfit
      simp only [Call.sizeAfter]
      omega
  | pop => exact (Nat.sub_le _ _).trans hsize
  | top => exact hsize
  | empty => exact hsize

/-- A state of a session whose positions have fitted so far. -/
structure Session.Fitting (cmp : Comparison T) (session : Session T)
    (pushed : List T) : Prop where
  good : session.Good cmp pushed session.heap.size
  size_le : session.heap.size ≤ 2 ^ 31

theorem Session.Fitting.step (hlaw : cmp.Lawful) {session : Session T}
    {pushed : List T} (hfitting : session.Fitting cmp pushed) {call : Call T}
    (hallowed : call.Allowed session.heap.size)
    (hfit : PositionsFit cmp session call) :
    ∃ next, session.stepInt cmp call = some next ∧
      session.step cmp call = some next ∧
      next.Fitting cmp (pushed ++ pushedBy [call]) ∧
      next.heap.size = call.sizeAfter session.heap.size := by
  rcases hfitting.good.step hlaw hallowed with ⟨next, hstep, hgood⟩
  have hstepInt := Session.stepInt_eq_step hlaw hfitting.good.heap
    hfitting.size_le hfit
  have hnext : next.heap.size ≤ 2 ^ 31 := by
    rw [hgood.size_eq]
    exact hfit.sizeAfter_le hfitting.size_le
  refine ⟨next, hstepInt.trans hstep, hstep, ⟨?_, hnext⟩, hgood.size_eq⟩
  rwa [hgood.size_eq]

/-! ## Runs -/

theorem Session.Fitting.run (hlaw : cmp.Lawful) {done rest : List (Call T)}
    {session : Session T} {pushed : List T}
    (hfitting : session.Fitting cmp pushed)
    (hadm : Admissible session.heap.size (done ++ rest))
    (hmeet : StepsMeet (Session.stepInt cmp) (PositionsFit cmp) session
      (done ++ rest)) :
    ∃ final, GuardedRuns.run (Session.stepInt cmp) session done = some final ∧
      done.foldlM (Session.step cmp) session = some final ∧
      final.Fitting cmp (pushed ++ pushedBy done) ∧
      Admissible final.heap.size rest ∧
      StepsMeet (Session.stepInt cmp) (PositionsFit cmp) final rest := by
  induction done generalizing session pushed with
  | nil =>
      refine ⟨session, rfl, rfl, ?_, hadm, hmeet⟩
      simpa [pushedBy] using hfitting
  | cons call done ih =>
      rcases hfitting.step hlaw hadm.1 hmeet.1 with
        ⟨next, hstepInt, hstep, hnext, hsize⟩
      rcases ih hnext (hsize ▸ hadm.2) (hmeet.2 next hstepInt) with
        ⟨final, hrunInt, hrun, hfinal, hadmRest, hmeetRest⟩
      refine ⟨final, run_cons_eq_some.mpr ⟨next, hstepInt, hrunInt⟩, ?_, ?_,
        hadmRest, hmeetRest⟩
      · simpa [hstep] using hrun
      · have hpushed : pushedBy (call :: done) =
            pushedBy [call] ++ pushedBy done := by
          rw [← List.singleton_append, pushedBy, List.filterMap_append]
          rfl
        rwa [hpushed, ← List.append_assoc]

theorem fitting_new : (Session.new : Session T).Fitting cmp [] :=
  ⟨⟨fun i _ => .of_size_le (Nat.zero_le i), .refl _, rfl⟩, Nat.zero_le _⟩

/-- Calls without a `push` take one greatest element after the other. -/
theorem Session.Fitting.drain (hlaw : cmp.Lawful) {calls more : List (Call T)}
    {session : Session T} {pushed : List T}
    (hfitting : session.Fitting cmp pushed)
    (hadm : Admissible session.heap.size (calls ++ more))
    (hmeet : StepsMeet (Session.stepInt cmp) (PositionsFit cmp) session
      (calls ++ more))
    (hpushed : pushedBy calls = []) :
    ∃ after out, GuardedRuns.run (Session.stepInt cmp) session calls =
        some after ∧ session.Drains cmp after out := by
  induction calls generalizing session pushed with
  | nil => exact ⟨session, [], rfl, rfl, .nil, by simp⟩
  | cons call calls ih =>
      rcases hfitting.step hlaw hadm.1 hmeet.1 with
        ⟨next, hstepInt, hstep, hnext, hsize⟩
      have hcalls : pushedBy calls = [] := by
        unfold pushedBy at hpushed ⊢
        rw [List.filterMap_eq_nil_iff] at hpushed ⊢
        exact fun other hother => hpushed other (.tail call hother)
      rcases ih hnext (hsize ▸ hadm.2) (hmeet.2 next hstepInt) hcalls with
        ⟨after, out, hrun, hdrains⟩
      have hrunAll := run_cons_eq_some.mpr ⟨next, hstepInt, hrun⟩
      cases call with
      | push k => simp [pushedBy] at hpushed
      | pop =>
          rcases pop_spec hlaw hfitting.good.heap hadm.1 with
            ⟨shown, heap', htop, hbound, hpop, _, hperm⟩
          obtain rfl : ⟨heap', shown :: session.popped⟩ = next := by
            simpa [Session.step, htop, hpop] using hstep
          have hall : (shown ::ₘ (heap'.toList : Multiset T)) =
              session.heap.toList := Multiset.coe_eq_coe.mpr hperm
          have hout : (out : Multiset T) + after.heap.toList =
              heap'.toList := hdrains.contents
          refine ⟨after, shown :: out, hrunAll, ?_, .cons ?_ hdrains.sorted, ?_⟩
          · rw [hdrains.popped, List.reverse_cons, List.append_assoc]
            rfl
          · intro x hx
            have hstored : x ∈ heap'.toList := by
              rw [← Multiset.mem_coe, ← hout]
              exact Multiset.mem_add.mpr (.inl (Multiset.mem_coe.mpr hx))
            exact hbound x
              (by simpa using hperm.subset (.tail shown hstored))
          · rw [← Multiset.cons_coe, Multiset.cons_add, hout, hall]
      | top =>
          obtain rfl : session = next := by
            rcases pop_spec hlaw hfitting.good.heap hadm.1 with
              ⟨shown, _, htop, _⟩
            simpa [Session.step, htop] using hstep
          exact ⟨after, out, hrunAll, hdrains⟩
      | empty =>
          obtain rfl : session = next := Option.some.inj hstep
          exact ⟨after, out, hrunAll, hdrains⟩

theorem Session.Fitting.expected (hlaw : cmp.Lawful)
    {done rest : List (Call T)} {session : Session T}
    (hrun : runCallsInt cmp done = some session)
    (hfitting : session.Fitting cmp (pushedBy done))
    (hadm : Admissible session.heap.size rest)
    (hmeet : StepsMeet (Session.stepInt cmp) (PositionsFit cmp) session rest) :
    session.Expected cmp done rest := by
  refine ⟨?_, Multiset.coe_eq_coe.mpr hfitting.good.contents, ?_, ?_⟩
  · intro i hi hpos
    exact (bounds_iff hlaw ((parent_lt hpos).trans hi) hi).mp
      (hfitting.good.heap i hpos)
  · intro hne
    rcases pop_spec hlaw hfitting.good.heap hne with
      ⟨shown, heap', htop, hbound, hpop, _, hperm⟩
    refine ⟨shown, htop, hbound, ?_⟩
    rintro more rfl
    refine ⟨heap', ?_, (Multiset.coe_eq_coe.mpr hperm).symm⟩
    rw [popInt_eq_pop hlaw hfitting.good.heap hfitting.size_le hmeet.1, hpop]
  · rintro draining more rfl hpushed
    rcases hfitting.drain hlaw hadm hmeet hpushed with
      ⟨after, out, hdrained, hdrains⟩
    refine ⟨after, out, ?_, hdrains⟩
    unfold runCallsInt at hrun ⊢
    rw [run_append, hrun]
    exact hdrained

/-- A session all of whose beginnings run has no position that does not
fit. -/
theorem Session.Fitting.stepsMeet (hlaw : cmp.Lawful)
    {calls : List (Call T)} {session : Session T} {pushed : List T}
    (hfitting : session.Fitting cmp pushed)
    (hadm : Admissible session.heap.size calls)
    (hrun : (GuardedRuns.run (Session.stepInt cmp) session calls).isSome) :
    StepsMeet (Session.stepInt cmp) (PositionsFit cmp) session calls := by
  induction calls generalizing session pushed with
  | nil => trivial
  | cons call calls ih =>
      rcases Option.isSome_iff_exists.mp hrun with ⟨final, hfinal⟩
      rcases run_cons_eq_some.mp hfinal with ⟨next, hstepInt, hrest⟩
      have hfit : PositionsFit cmp session call := by
        by_contra hnot
        rw [Session.stepInt_eq_none hlaw hfitting.good.heap hfitting.size_le
          hnot] at hstepInt
        cases hstepInt
      refine ⟨hfit, fun next' hstep' => ?_⟩
      rcases hfitting.step hlaw hadm.1 hfit with
        ⟨other, hother, _, hnext, hsize⟩
      obtain rfl : next = next' := Option.some.inj (hstepInt.symm.trans hstep')
      obtain rfl : next = other := Option.some.inj (hstepInt.symm.trans hother)
      exact ih hnext (hsize ▸ hadm.2) (Option.isSome_iff_exists.mpr ⟨_, hrest⟩)

/-- An admissible session is correct exactly when every `push` finds fewer
than `2 ^ 31` elements and no `pop` sinks too deep. -/
theorem correct_iff_stepsMeet (hlaw : cmp.Lawful) {calls : List (Call T)}
    (hadm : Admissible 0 calls) :
    Correct cmp calls ↔
      StepsMeet (Session.stepInt cmp) (PositionsFit cmp) .new calls := by
  constructor
  · intro hcorrect
    rcases hcorrect calls [] (List.append_nil calls).symm with
      ⟨session, hrun, _⟩
    exact fitting_new.stepsMeet hlaw hadm
      (Option.isSome_iff_exists.mpr ⟨session, hrun⟩)
  · rintro hmeet done rest rfl
    rcases fitting_new.run hlaw hadm hmeet with
      ⟨session, hrun, _, hfitting, hadmRest, hmeetRest⟩
    exact ⟨session, hrun, hfitting.expected hlaw hrun hadmRest hmeetRest⟩

/-- With at most `2 ^ 30 + 1` calls all positions fit. -/
theorem stepsMeet_of_length_le (hlaw : cmp.Lawful) {calls : List (Call T)}
    {session : Session T} {pushed : List T}
    (hfitting : session.Fitting cmp pushed)
    (hadm : Admissible session.heap.size calls)
    (hlength : session.heap.size + calls.length ≤ 2 ^ 30 + 1) :
    StepsMeet (Session.stepInt cmp) (PositionsFit cmp) session calls := by
  induction calls generalizing session pushed with
  | nil => trivial
  | cons call calls ih =>
      rw [List.length_cons] at hlength
      have hfit : PositionsFit cmp session call := by
        cases call with
        | push k =>
            have hlt : session.heap.size < 2 ^ 31 := by omega
            exact hlt
        | pop => exact sinksInRange_of_size_le (by omega)
        | top => trivial
        | empty => trivial
      refine ⟨hfit, fun next hnext => ?_⟩
      rcases hfitting.step hlaw hadm.1 hfit with
        ⟨other, hother, _, hgood, hsize⟩
      obtain rfl : next = other := Option.some.inj (hnext.symm.trans hother)
      refine ih hgood (hsize ▸ hadm.2) ?_
      rw [hsize]
      cases call <;> simp only [Call.sizeAfter] <;> omega

/-- Two equal elements and a larger one, of which two are taken. -/
theorem correct_iff_stepsMeet_int :
    Correct intComparison [.push 2, .push 3, .push 2, .top, .pop, .pop] := by
  have hadm : Admissible 0
      ([.push 2, .push 3, .push 2, .top, .pop, .pop] : List (Call ℤ)) := by
    simp [Admissible, Call.Allowed, Call.sizeAfter]
  exact (correct_iff_stepsMeet intComparison_lawful hadm).mpr
    (stepsMeet_of_length_le intComparison_lawful fitting_new hadm (by decide))

/-- The session that sinks its last entry to the position `2 ^ 30`. -/
theorem not_correct_manyTwos :
    ¬∀ (T : Type) (cmp : Comparison T), cmp.Lawful →
      ∀ calls : List (Call T), Admissible 0 calls → Correct cmp calls := by
  intro hall
  have hexists : ∃ n, n + 1 = 2 ^ 30 := ⟨2 ^ 30 - 1, by decide⟩
  rcases hexists with ⟨n, hn⟩
  have hadm : Admissible 0
      ((List.replicate n (2 : ℤ) ++ [1, 2, 0]).map Call.push ++ [.pop]) :=
    admissible_pushes_pop (by simp)
  rcases hall ℤ intComparison intComparison_lawful _ hadm _ []
    (List.append_nil _).symm with ⟨session, hsession, _⟩
  have hmeet := fitting_new.stepsMeet intComparison_lawful hadm
    (Option.isSome_iff_exists.mpr ⟨session, hsession⟩)
  rcases fitting_new.run intComparison_lawful hadm hmeet with
    ⟨before, _, hrun, _, _, hpop⟩
  have hmany := @runCalls_manyTwos n (by omega)
  obtain rfl : ⟨(manyTwos n).push 0, []⟩ = before :=
    Option.some.inj (hmany.symm.trans hrun)
  have hlast := hpop.1 (2 ^ 30) le_rfl
    (by rw [Array.pop_push]; exact onLargerPath_right hn) 0
    (by rw [Array.back?_push]; rfl) 2
    (by rw [Array.pop_push, ← hn]; exact manyTwos_last n)
  exact absurd hlast (by decide)

end Miscellaneous.PriorityQueue
