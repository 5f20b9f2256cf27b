import Miscellaneous.PriorityQueueSift
import Mathlib.Tactic

/-!
# Sequences of queue operations

A session is a sequence of `push`, `pop`, `top` and `empty` calls on an
initially empty queue.  It is admissible when `pop` and `top` are called only
while the queue holds an element.  Every admissible session runs without a
read outside the vector and keeps the heap; what has been popped and what is
still stored add up to what was pushed.
-/

namespace Miscellaneous.PriorityQueue

open ArrayHeaps

inductive Call (T : Type*) where
  | push (k : T)
  | pop
  | top
  | empty

/-- The queue, and the element `top` showed before each `pop` so far. -/
structure Session (T : Type*) where
  heap : Array T
  popped : List T

variable {T : Type*} (cmp : Comparison T)

def Session.step (session : Session T) : Call T → Option (Session T)
  | .push k =>
      (push cmp session.heap k).map fun heap => { session with heap := heap }
  | .pop => do
      let shown ← top session.heap
      let heap ← pop cmp session.heap
      return ⟨heap, shown :: session.popped⟩
  | .top => (top session.heap).map fun _ => session
  | .empty => some session

def runCalls (calls : List (Call T)) : Option (Session T) :=
  calls.foldlM (Session.step cmp) ⟨#[], []⟩

def Call.Allowed : Call T → ℕ → Prop
  | .pop, size => 0 < size
  | .top, size => 0 < size
  | _, _ => True

def Call.sizeAfter : Call T → ℕ → ℕ
  | .push _, size => size + 1
  | .pop, size => size - 1
  | _, size => size

/-- Every call is allowed at its moment, with `size` elements at first. -/
def Admissible : ℕ → List (Call T) → Prop
  | _, [] => True
  | size, call :: rest => call.Allowed size ∧ Admissible (call.sizeAfter size) rest

def pushedBy (calls : List (Call T)) : List T :=
  calls.filterMap fun
    | .push k => some k
    | _ => none

variable {cmp}

/-! ## One operation -/

theorem push_spec (hlaw : cmp.Lawful) {heap : Array T}
    (hheap : IsHeap cmp.NotLess heap) (k : T) :
    ∃ heap', push cmp heap k = some heap' ∧ IsHeap cmp.NotLess heap' ∧
      heap'.Perm (heap.push k) := by
  have hready : SwimReady cmp.NotLess (heap.push k) heap.size := by
    constructor
    · intro i hi hne a ha b hb
      have hlt := parent_lt hi
      have hsize : i < heap.size := by
        by_contra hnot
        rw [Array.getElem?_eq_none (by rw [Array.size_push]; omega)] at hb
        contradiction
      rw [Array.getElem?_push_lt (hlt.trans hsize)] at ha
      rw [Array.getElem?_push_lt hsize] at hb
      refine hheap i hi a ?_ b ?_
      · rwa [Array.getElem?_eq_getElem (hlt.trans hsize)]
      · rwa [Array.getElem?_eq_getElem hsize]
    · -- the new entry has no children
      intro _ i hi hparent
      have hlt := parent_lt hi
      exact .of_size_le (by rw [Array.size_push]; omega)
  have hsize : heap.size < (heap.push k).size := by simp
  obtain ⟨heap', hrun, hheap', hperm, _⟩ := swim_spec hlaw hsize hready
  refine ⟨heap', ?_, hheap', hperm⟩
  simpa [push] using hrun

theorem pop_ready {heap : Array T} (hheap : IsHeap cmp.NotLess heap)
    (last : T) :
    SinkReady cmp.NotLess (heap.setIfInBounds 0 last).pop 0 0 := by
  refine ⟨.refl, ?_, fun h => absurd rfl h⟩
  intro i hi _ hparent a ha b hb
  rw [Array.getElem?_pop, Array.getElem?_setIfInBounds] at ha hb
  rw [if_neg (Ne.symm hparent)] at ha
  rw [if_neg hi.ne] at hb
  split_ifs at ha hb <;> try contradiction
  exact hheap i hi a ha b hb

theorem back?_eq_some_back {heap : Array T} (hne : 0 < heap.size) :
    heap.back? = some (heap.back hne) := by
  simp [Array.back?_eq_getElem?, Array.back]

theorem dropLast_set_perm (head : T) (tail : List T) :
    (head :: (((head :: tail).set 0
      ((head :: tail).getLast (by simp))).dropLast)).Perm (head :: tail) := by
  refine .cons head ?_
  cases htail : tail with
  | nil => simp
  | cons next rest =>
      have hne : next :: rest ≠ [] := by simp
      have hsplit := List.dropLast_append_getLast hne
      rw [List.set_cons_zero, List.getLast_cons hne,
        List.dropLast_cons_of_ne_nil hne]
      calc
        (next :: rest).getLast hne :: (next :: rest).dropLast
            |>.Perm ((next :: rest).dropLast ++ [(next :: rest).getLast hne]) :=
          (List.perm_append_singleton _ _).symm
        _ = next :: rest := hsplit

theorem pop_spec (hlaw : cmp.Lawful) {heap : Array T}
    (hheap : IsHeap cmp.NotLess heap) (hne : 0 < heap.size) :
    ∃ shown heap', top heap = some shown ∧
      (∀ x ∈ heap, cmp.NotLess shown x) ∧
      pop cmp heap = some heap' ∧ IsHeap cmp.NotLess heap' ∧
        (shown :: heap'.toList).Perm heap.toList := by
  have hrefl : Std.Refl cmp.NotLess := ⟨hlaw.notLess_refl⟩
  have htrans : IsTrans T cmp.NotLess := ⟨fun _ _ _ => hlaw.notLess_trans⟩
  have htop : top heap = some heap[0] := by simp [top]
  have hback := back?_eq_some_back hne
  obtain ⟨heap', hrun, hordered, hperm, _⟩ :=
    sink_spec hlaw (pop_ready hheap (heap.back hne))
  refine ⟨heap[0], heap', htop, ?_, ?_, ?_, ?_⟩
  · intro x hx
    obtain ⟨i, hi, rfl⟩ := Array.mem_iff_getElem.mp hx
    exact hheap.bounds_root i _ (by simp) _ (by simp)
  · simpa only [pop, hback] using hrun
  · exact fun i hi => hordered i hi (inSubtree_zero _)
  · refine ((List.Perm.cons _ hperm.toList).trans ?_)
    obtain ⟨entries⟩ := heap
    cases entries with
    | nil => contradiction
    | cons head tail => simpa using dropLast_set_perm head tail

/-! ## Sessions -/

structure Session.Good (cmp : Comparison T) (session : Session T)
    (pushed : List T) (size : ℕ) : Prop where
  heap : IsHeap cmp.NotLess session.heap
  contents : (session.heap.toList ++ session.popped).Perm pushed
  size_eq : session.heap.size = size

theorem Session.Good.step (hlaw : cmp.Lawful) {session : Session T}
    {pushed : List T} {size : ℕ} (hgood : session.Good cmp pushed size)
    {call : Call T} (hallowed : call.Allowed size) :
    ∃ session', session.step cmp call = some session' ∧
      session'.Good cmp (pushed ++ pushedBy [call]) (call.sizeAfter size) := by
  have hcontents := hgood.contents
  cases call with
  | push k =>
      obtain ⟨heap', hpush, hheap', hperm⟩ := push_spec hlaw hgood.heap k
      have hstored : heap'.toList.Perm (session.heap.toList ++ [k]) := by
        simpa using hperm.toList
      refine ⟨{ session with heap := heap' }, by simp [Session.step, hpush],
        hheap', ?_, ?_⟩
      · calc
          heap'.toList ++ session.popped
              |>.Perm (session.heap.toList ++ [k] ++ session.popped) :=
            hstored.append_right _
          _ |>.Perm (session.heap.toList ++ session.popped ++ [k]) := by
            simpa using (List.perm_append_singleton k
              session.popped).symm.append_left session.heap.toList
          _ |>.Perm (pushed ++ [k]) := hcontents.append_right _
      · simpa [Call.sizeAfter, hgood.size_eq] using hperm.size_eq
  | pop =>
      obtain ⟨shown, heap', htop, _, hpop, hheap', hperm⟩ :=
        pop_spec hlaw hgood.heap (hgood.size_eq ▸ hallowed)
      have hsize : heap'.size + 1 = session.heap.size := by
        simpa using hperm.length_eq
      refine ⟨⟨heap', shown :: session.popped⟩,
        by simp [Session.step, htop, hpop], hheap', ?_, ?_⟩
      · refine .trans ?_ (by simpa [pushedBy] using hcontents)
        exact List.perm_middle.trans (hperm.append_right session.popped)
      · have := hgood.size_eq
        simp only [Call.sizeAfter]
        omega
  | top =>
      obtain ⟨shown, _, htop, _⟩ :=
        pop_spec hlaw hgood.heap (hgood.size_eq ▸ hallowed)
      exact ⟨session, by simp [Session.step, htop],
        by simpa [pushedBy, Call.sizeAfter] using hgood⟩
  | empty =>
      exact ⟨session, rfl, by simpa [pushedBy, Call.sizeAfter] using hgood⟩

theorem Session.Good.run (hlaw : cmp.Lawful) {calls : List (Call T)}
    {session : Session T} {pushed : List T} {size : ℕ}
    (hgood : session.Good cmp pushed size) (hadm : Admissible size calls) :
    ∃ session' size', calls.foldlM (Session.step cmp) session =
        some session' ∧
      session'.Good cmp (pushed ++ pushedBy calls) size' := by
  induction calls generalizing session pushed size with
  | nil => exact ⟨session, size, rfl, by simpa [pushedBy] using hgood⟩
  | cons call rest ih =>
      obtain ⟨next, hstep, hnext⟩ := hgood.step hlaw hadm.1
      obtain ⟨session', size', hrun, hgood'⟩ := ih hnext hadm.2
      refine ⟨session', size', ?_, ?_⟩
      · simpa [hstep] using hrun
      · have hpushed : pushedBy (call :: rest) =
            pushedBy [call] ++ pushedBy rest := by
          rw [← List.singleton_append, pushedBy, List.filterMap_append]
          rfl
        rwa [hpushed, ← List.append_assoc]

def intComparison : Comparison ℤ where
  lt a b := decide (a < b)
  ge a b := decide (a ≥ b)

theorem intComparison_lawful : intComparison.Lawful where
  strictWeak :=
    { irrefl := by simp [intComparison]
      trans := by simp only [intComparison, decide_eq_true_eq]; omega
      incomp_trans := by simp only [intComparison, decide_eq_true_eq]; omega }
  ge_eq a b := by
    simp only [intComparison, ge_iff_le, ← not_lt, decide_not]

end Miscellaneous.PriorityQueue
