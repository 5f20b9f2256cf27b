import Miscellaneous.PriorityQueueSessions
import Mathlib.Logic.Relation
import Mathlib.Tactic

/-!
# The queue with positions of type `int`

`swim` and `sink` once more, where a position, or an expression over positions,
which leaves the range of `int` is undefined (`none`).  Only the indices of the
children can leave it.  `sink` evaluates them at every position that it
reaches, and it reaches the positions on the path of the larger children whose
entries are greater than the one that sinks.
-/

namespace Miscellaneous.PriorityQueue

open ArrayHeaps Relation

variable {T : Type*} (cmp : Comparison T)

def swimInt (heap : Array T) (pos : ℕ) : Option (Array T) :=
  if 0 < pos then
    if (pos - 1) / 2 < 2 ^ 31 then
      match heap[(pos - 1) / 2]?, heap[pos]? with
      | some above, some entry =>
          if cmp.lt above entry then
            swimInt (heap.swapIfInBounds ((pos - 1) / 2) pos) ((pos - 1) / 2)
          else some heap
      | _, _ => none
    else none
  else some heap
termination_by pos
decreasing_by omega

/-- `largerChild`; `i + 1` is evaluated when there are two children. -/
def largerChildInt (heap : Array T) (pos : ℕ) : Option ℕ :=
  let i := 2 * pos + 1
  if i < heap.size - 1 then
    if i + 1 < 2 ^ 31 then
      match heap[i]?, heap[i + 1]? with
      | some left, some right => some (if cmp.lt left right then i + 1 else i)
      | _, _ => none
    else none
  else some i

theorem largerChild_of_largerChildInt {heap : Array T} {pos i : ℕ}
    (hchild : largerChildInt cmp heap pos = some i) :
    largerChild cmp heap pos = some i := by
  simp only [largerChildInt] at hchild
  simp only [largerChild]
  split_ifs at hchild ⊢
  · exact hchild
  · exact hchild

/-- The loop evaluates `2 * pos + 1` before it compares it with the size. -/
def sinkInt (heap : Array T) (pos : ℕ) : Option (Array T) :=
  if 2 * pos + 1 < 2 ^ 31 then
    if 2 * pos + 1 < heap.size then
      match _hchild : largerChildInt cmp heap pos with
      | none => none
      | some i =>
          match heap[pos]?, heap[i]? with
          | some entry, some child =>
              if cmp.ge entry child then some heap
              else sinkInt (heap.swapIfInBounds pos i) i
          | _, _ => none
    else some heap
  else none
termination_by heap.size - pos
decreasing_by
  have hgt := largerChild_gt cmp (largerChild_of_largerChildInt cmp _hchild)
  rw [Array.size_swapIfInBounds]
  omega

/-- `swim(m_heap.size() - 1)` converts the position to `int`. -/
def pushInt (heap : Array T) (k : T) : Option (Array T) :=
  let heap := heap.push k
  if heap.size - 1 < 2 ^ 31 then swimInt cmp heap (heap.size - 1) else none

def popInt (heap : Array T) : Option (Array T) :=
  match heap.back? with
  | none => none
  | some last => sinkInt cmp (heap.setIfInBounds 0 last).pop 0

/-- The child indices that `sink` evaluates at a position are in the range of
`int`: the left one always, the right one when there are two children. -/
def ChildIndicesFit (heap : Array T) (pos : ℕ) : Prop :=
  2 * pos + 1 < 2 ^ 31 ∧ (2 * pos + 2 < heap.size → 2 * pos + 2 < 2 ^ 31)

def LargerStep (heap : Array T) (pos i : ℕ) : Prop :=
  2 * pos + 1 < heap.size ∧ largerChild cmp heap pos = some i

/-- The path from the root on which every position is the larger child of the
one before. -/
inductive OnLargerPath (heap : Array T) : ℕ → Prop where
  | root : OnLargerPath heap 0
  | child {pos i : ℕ} (hpath : OnLargerPath heap pos)
      (hguard : 2 * pos + 1 < heap.size)
      (hpick : largerChild cmp heap pos = some i) : OnLargerPath heap i

variable {cmp}

/-! ## Pushing -/

/-- Positions on the way up are smaller than the first one. -/
theorem swimInt_eq {heap : Array T} {pos : ℕ} (hpos : pos < 2 ^ 31) :
    swimInt cmp heap pos = swim cmp heap pos := by
  induction heap, pos using swim.induct cmp with
  | case1 heap pos hpositive above entry hentry habove hlt ih =>
      rw [swimInt, swim, if_pos hpositive, if_pos hpositive,
        if_pos (by omega), habove, hentry]
      simp only [hlt, if_true]
      exact ih (by omega)
  | case2 heap pos hpositive above entry hentry habove hlt =>
      rw [swimInt, swim, if_pos hpositive, if_pos hpositive,
        if_pos (by omega), habove, hentry]
      simp only [hlt, Bool.false_eq_true, if_false]
  | case3 heap pos hpositive hread =>
      rw [swimInt, swim, if_pos hpositive, if_pos hpositive,
        if_pos (by omega)]
      cases habove : heap[(pos - 1) / 2]? with
      | none => rfl
      | some above =>
          cases hentry : heap[pos]? with
          | none => rfl
          | some entry => exact (hread above entry habove hentry).elim
  | case4 heap pos hpositive =>
      rw [swimInt, swim, if_neg hpositive, if_neg hpositive]

theorem pushInt_eq {heap : Array T} (hsize : heap.size ≤ 2 ^ 31 - 1) (k : T) :
    pushInt cmp heap k = push cmp heap k := by
  have hposition : (heap.push k).size - 1 < 2 ^ 31 := by
    rw [Array.size_push]
    omega
  unfold pushInt push
  simp only [if_pos hposition]
  exact swimInt_eq hposition

/-! ## One turn of the loop on the way down -/

theorem childIndicesFit_iff {heap : Array T} (hsize : heap.size ≤ 2 ^ 31)
    {pos : ℕ} : ChildIndicesFit heap pos ↔ pos < 2 ^ 30 := by
  unfold ChildIndicesFit
  omega

theorem largerChildInt_eq {heap : Array T} {pos : ℕ}
    (hfit : ChildIndicesFit heap pos) :
    largerChildInt cmp heap pos = largerChild cmp heap pos := by
  have hright := hfit.2
  simp only [largerChildInt, largerChild]
  by_cases hboth : 2 * pos + 1 < heap.size - 1
  · rw [if_pos hboth, if_pos hboth]
    exact if_pos (by omega)
  · rw [if_neg hboth, if_neg hboth]

theorem sinkInt_eq_none_of_not_fit {heap : Array T} {pos : ℕ}
    (hfit : ¬ChildIndicesFit heap pos) : sinkInt cmp heap pos = none := by
  unfold ChildIndicesFit at hfit
  rw [sinkInt]
  by_cases hposition : 2 * pos + 1 < 2 ^ 31
  · -- the right child index is the one that overflows
    have hnone : largerChildInt cmp heap pos = none := by
      simp only [largerChildInt]
      rw [if_pos (by omega), if_neg (by omega)]
    rw [if_pos hposition, if_pos (by omega)]
    split
    · rfl
    · next i hsome =>
        rw [hnone] at hsome
        contradiction
  · rw [if_neg hposition]

/-- The larger child depends on the entries behind the position only. -/
theorem largerChild_congr {heap heap' : Array T} {pos : ℕ}
    (hsize : heap'.size = heap.size)
    (hbehind : ∀ q, pos < q → heap'[q]? = heap[q]?) :
    largerChild cmp heap' pos = largerChild cmp heap pos := by
  simp only [largerChild]
  rw [hsize, hbehind (2 * pos + 1) (by omega),
    hbehind (2 * pos + 1 + 1) (by omega)]

theorem sinkInt_of_child {heap : Array T} {pos i : ℕ} {entry child : T}
    (hfit : ChildIndicesFit heap pos) (hguard : 2 * pos + 1 < heap.size)
    (hpick : largerChild cmp heap pos = some i)
    (hentry : heap[pos]? = some entry) (hchild : heap[i]? = some child) :
    sinkInt cmp heap pos =
      if cmp.ge entry child then some heap
      else sinkInt cmp (heap.swapIfInBounds pos i) i := by
  rw [← largerChildInt_eq hfit] at hpick
  rw [sinkInt, if_pos hfit.1, if_pos hguard]
  split
  · next hnone =>
      rw [hpick] at hnone
      contradiction
  · next j hsome =>
      obtain rfl : i = j := Option.some.inj (hpick.symm.trans hsome)
      simp only [hentry, hchild]

/-- From `pos` the entry `last` sinks to `i`, in the array `base`. -/
def SinkStep (cmp : Comparison T) (base : Array T) (last : T) (pos i : ℕ) :
    Prop :=
  2 * pos + 1 < base.size ∧ largerChild cmp base pos = some i ∧
    ∃ child, base[i]? = some child ∧ cmp.ge last child = false

/-- The array while `last` sinks: behind its position nothing has changed. -/
structure Sinking (base : Array T) (last : T) (heap : Array T) (pos : ℕ) :
    Prop where
  size_eq : heap.size = base.size
  entry : pos < heap.size → heap[pos]? = some last
  behind : ∀ q, pos < q → heap[q]? = base[q]?

theorem Sinking.swap {base heap : Array T} {last : T} {pos i : ℕ}
    (hsinking : Sinking base last heap pos) (hlt : pos < i)
    (hi : i < heap.size) :
    Sinking base last (heap.swapIfInBounds pos i) i := by
  have hget := getElem?_swapIfInBounds_eq (hlt.trans hi) hi
  constructor
  · rw [Array.size_swapIfInBounds, hsinking.size_eq]
  · intro _
    rw [hget, if_neg hlt.ne', if_pos rfl]
    exact hsinking.entry (hlt.trans hi)
  · intro q hq
    rw [hget, if_neg (by omega), if_neg (by omega)]
    exact hsinking.behind q (hlt.trans hq)

theorem SinkStep.unique {base : Array T} {last : T} {pos i j : ℕ}
    (hi : SinkStep cmp base last pos i) (hj : SinkStep cmp base last pos j) :
    i = j :=
  Option.some.inj (hi.2.1.symm.trans hj.2.1)

theorem SinkStep.lt {base : Array T} {last : T} {pos i : ℕ}
    (hstep : SinkStep cmp base last pos i) : pos < i :=
  largerChild_gt cmp hstep.2.1

theorem Sinking.childIndicesFit_iff {base heap : Array T} {last : T}
    {pos : ℕ} (hsinking : Sinking base last heap pos) {q : ℕ} :
    ChildIndicesFit heap q ↔ ChildIndicesFit base q := by
  unfold ChildIndicesFit
  rw [hsinking.size_eq]

/-! ## The loop -/

/-- The loop without overflow, one turn at a time. -/
theorem Sinking.turn (hlaw : cmp.Lawful) {base heap : Array T} {last : T}
    {pos : ℕ} (hsinking : Sinking base last heap pos) :
    (∀ i, ¬SinkStep cmp base last pos i) ∧ sink cmp heap pos = some heap ∧
        (ChildIndicesFit heap pos → sinkInt cmp heap pos = some heap) ∨
      ∃ i, SinkStep cmp base last pos i ∧ i < heap.size ∧
        sink cmp heap pos = sink cmp (heap.swapIfInBounds pos i) i ∧
        (ChildIndicesFit heap pos →
          sinkInt cmp heap pos = sinkInt cmp (heap.swapIfInBounds pos i) i) := by
  by_cases hguard : 2 * pos + 1 < heap.size
  · rcases largerChild_spec hlaw hguard with ⟨i, hpick, _, _, hi, _⟩
    have hlt := largerChild_gt cmp hpick
    have hentry := hsinking.entry (hlt.trans hi)
    have hchild := Array.getElem?_eq_getElem hi
    have hbase : base[i]? = some heap[i] := by
      rw [← hsinking.behind i hlt, hchild]
    have hpickBase : largerChild cmp base pos = some i := by
      rw [← largerChild_congr hsinking.size_eq hsinking.behind, hpick]
    have hsink := sink_of_child cmp hguard hpick hentry hchild
    have hsinkInt (hfit : ChildIndicesFit heap pos) :=
      sinkInt_of_child hfit hguard hpick hentry hchild
    cases hge : cmp.ge last heap[i] with
    | true =>
        left
        simp only [hge, if_true] at hsink hsinkInt
        refine ⟨?_, hsink, hsinkInt⟩
        rintro j ⟨_, hpickJ, child, hchildJ, hless⟩
        obtain rfl : i = j := Option.some.inj (hpickBase.symm.trans hpickJ)
        obtain rfl : heap[i] = child := Option.some.inj (hbase.symm.trans hchildJ)
        rw [hge] at hless
        cases hless
    | false =>
        right
        simp only [hge, Bool.false_eq_true, if_false] at hsink hsinkInt
        exact ⟨i, ⟨hsinking.size_eq ▸ hguard, hpickBase, heap[i], hbase, hge⟩,
          hi, hsink, hsinkInt⟩
  · left
    refine ⟨?_, ?_, ?_⟩
    · intro i hstep
      exact hguard (hsinking.size_eq ▸ hstep.1)
    · rw [sink, if_neg hguard]
    · intro hfit
      rw [sinkInt, if_pos hfit.1, if_neg hguard]

theorem Sinking.sinkInt_eq_sink (hlaw : cmp.Lawful) {base heap : Array T}
    {last : T} {pos : ℕ} (hsinking : Sinking base last heap pos)
    (hfits : ∀ q, ReflTransGen (SinkStep cmp base last) pos q →
      ChildIndicesFit base q) : sinkInt cmp heap pos = sink cmp heap pos := by
  induction hrest : heap.size - pos using Nat.strong_induction_on
    generalizing heap pos with
  | _ rest ih =>
      have hfit := hsinking.childIndicesFit_iff.mpr (hfits pos .refl)
      rcases hsinking.turn hlaw with
        ⟨_, hsink, hsinkInt⟩ | ⟨i, hstep, hi, hsink, hsinkInt⟩
      · rw [hsink, hsinkInt hfit]
      · have hlt := hstep.lt
        rw [hsink, hsinkInt hfit]
        exact ih ((heap.swapIfInBounds pos i).size - i)
          (by rw [Array.size_swapIfInBounds]; omega)
          (hsinking.swap hlt hi) (fun q hq => hfits q (.head hstep hq)) rfl

/-- One position that is reached and has a child index out of range is enough
for the whole loop. -/
theorem Sinking.sinkInt_eq_none (hlaw : cmp.Lawful) {base heap : Array T}
    {last : T} {pos q : ℕ} (hsinking : Sinking base last heap pos)
    (hreached : ReflTransGen (SinkStep cmp base last) pos q)
    (hoverflow : ¬ChildIndicesFit base q) : sinkInt cmp heap pos = none := by
  induction hreached using ReflTransGen.head_induction_on generalizing heap with
  | refl =>
      exact sinkInt_eq_none_of_not_fit
        (mt hsinking.childIndicesFit_iff.mp hoverflow)
  | @head pos j hstep _ ih =>
      by_cases hfit : ChildIndicesFit heap pos
      · rcases hsinking.turn hlaw with
          ⟨hstop, _, _⟩ | ⟨i, hstep', hi, _, hsinkInt⟩
        · exact absurd hstep (hstop j)
        · obtain rfl : j = i := hstep.unique hstep'
          rw [hsinkInt hfit]
          exact ih (hsinking.swap hstep.lt hi)
      · exact sinkInt_eq_none_of_not_fit hfit

/-! ## The positions that are reached -/

theorem LargerStep.child (hlaw : cmp.Lawful) {heap : Array T} {pos i : ℕ}
    (hstep : LargerStep cmp heap pos i) :
    0 < i ∧ parent i = pos ∧ i < heap.size := by
  rcases largerChild_spec hlaw hstep.1 with ⟨j, hpick, hpos, hparent, hsize, _⟩
  obtain rfl : i = j := Option.some.inj (hstep.2.symm.trans hpick)
  exact ⟨hpos, hparent, hsize⟩

theorem inSubtree_of_largerSteps (hlaw : cmp.Lawful) {heap : Array T}
    {pos q : ℕ} (hpath : ReflTransGen (LargerStep cmp heap) pos q) :
    InSubtree pos q := by
  induction hpath with
  | refl => exact .refl
  | tail _ hstep ih =>
      rcases hstep.child hlaw with ⟨hi, hparent, _⟩
      exact .child hi (hparent ▸ ih)

theorem Comparison.Lawful.lt_of_lt_of_notLess (hlaw : cmp.Lawful) {a b c : T}
    (hac : cmp.lt a c = true) (hbc : cmp.NotLess b c) : cmp.lt a b = true := by
  cases hab : cmp.lt a b with
  | true => rfl
  | false =>
      have hnotLess := hlaw.notLess_trans hab hbc
      unfold Comparison.NotLess at hnotLess
      rw [hac] at hnotLess
      cases hnotLess

/-- Where the pairs below the start are ordered, an entry sinks along the path
of the larger children, past all entries that are greater. -/
theorem sinkSteps_iff (hlaw : cmp.Lawful) {heap : Array T} {pos : ℕ}
    (hready : SinkReady cmp.NotLess heap pos pos) (last : T) (q : ℕ) :
    ReflTransGen (SinkStep cmp heap last) pos q ↔
      ReflTransGen (LargerStep cmp heap) pos q ∧
        (q = pos ∨
          ∃ entry, heap[q]? = some entry ∧ cmp.lt last entry = true) := by
  constructor
  · intro hreached
    induction hreached with
    | refl => exact ⟨.refl, Or.inl rfl⟩
    | tail _ hstep ih =>
        rcases hstep with ⟨hguard, hpick, child, hchild, hge⟩
        have hlt : cmp.lt last child = true := by
          simpa [hlaw.ge_eq] using hge
        exact ⟨ih.1.tail ⟨hguard, hpick⟩, Or.inr ⟨child, hchild, hlt⟩⟩
  · rintro ⟨hpath, hgreater⟩
    induction hpath with
    | refl => exact .refl
    | @tail p i hpath hstep ih =>
        have hinside := inSubtree_of_largerSteps hlaw hpath
        rcases hstep.child hlaw with ⟨hi, rfl, hsize⟩
        have hlt := parent_lt hi
        rcases hgreater with rfl | ⟨entry, hentry, hless⟩
        · exact absurd hinside.le (Nat.not_le.mpr hlt)
        · refine (ih ?_).tail ⟨hstep.1, hstep.2, entry, hentry, ?_⟩
          · by_cases hstart : parent i = pos
            · exact Or.inl hstart
            · have habove := Array.getElem?_eq_getElem (hlt.trans hsize)
              have hordered := hready.ordered i hi hinside hstart _ habove
                entry hentry
              exact Or.inr ⟨_, habove,
                hlaw.lt_of_lt_of_notLess hless hordered⟩
          · rw [hlaw.ge_eq, hless]
            rfl

/-! ## Popping -/

theorem sinking_pop (heap : Array T) (last : T) :
    Sinking (heap.setIfInBounds 0 last).pop last
      (heap.setIfInBounds 0 last).pop 0 := by
  constructor
  · rfl
  · intro hsize
    rw [Array.size_pop, Array.size_setIfInBounds] at hsize
    have hpos : 0 < heap.size := by omega
    rw [Array.getElem?_pop, Array.size_setIfInBounds, if_pos hsize,
      Array.getElem?_setIfInBounds, if_pos rfl, if_pos hpos]
  · intro q _
    rfl

theorem getElem?_pop_root {heap : Array T} {last : T} {q : ℕ} (hq : 0 < q) :
    (heap.setIfInBounds 0 last).pop[q]? = heap.pop[q]? := by
  rw [Array.getElem?_pop, Array.getElem?_pop, Array.size_setIfInBounds,
    Array.getElem?_setIfInBounds, if_neg hq.ne]

theorem size_pop_root (heap : Array T) (last : T) :
    (heap.setIfInBounds 0 last).pop.size = heap.pop.size := by
  rw [Array.size_pop, Array.size_pop, Array.size_setIfInBounds]

theorem largerChild_pop_root (heap : Array T) (last : T) (pos : ℕ) :
    largerChild cmp (heap.setIfInBounds 0 last).pop pos =
      largerChild cmp heap.pop pos :=
  largerChild_congr (size_pop_root heap last)
    fun _ hq => getElem?_pop_root (Nat.zero_lt_of_lt hq)

theorem onLargerPath_iff {heap : Array T} {last : T} {q : ℕ} :
    OnLargerPath cmp heap.pop q ↔
      ReflTransGen (LargerStep cmp (heap.setIfInBounds 0 last).pop) 0 q := by
  constructor
  · intro hpath
    induction hpath with
    | root => exact .refl
    | child _ hguard hpick ih =>
        refine ih.tail ⟨?_, ?_⟩
        · rwa [size_pop_root]
        · rwa [largerChild_pop_root]
  · intro hpath
    induction hpath with
    | refl => exact .root
    | tail _ hstep ih =>
        rcases hstep with ⟨hguard, hpick⟩
        rw [size_pop_root] at hguard
        rw [largerChild_pop_root] at hpick
        exact .child ih hguard hpick

/-- In a heap the last entry sinks along the path of the larger children, past
all entries that are greater. -/
theorem reached_iff (hlaw : cmp.Lawful) {heap : Array T}
    (hheap : IsHeap cmp.NotLess heap) (last : T) (q : ℕ) :
    ReflTransGen (SinkStep cmp (heap.setIfInBounds 0 last).pop last) 0 q ↔
      q = 0 ∨ OnLargerPath cmp heap.pop q ∧
        ∃ entry, heap.pop[q]? = some entry ∧ cmp.lt last entry = true := by
  rw [sinkSteps_iff hlaw (pop_ready hheap last), ← onLargerPath_iff]
  rcases Nat.eq_zero_or_pos q with rfl | hq
  · exact ⟨fun _ => Or.inl rfl, fun _ => ⟨.root, Or.inl rfl⟩⟩
  · rw [getElem?_pop_root hq, or_iff_right hq.ne', or_iff_right hq.ne']

/-- No position on the path of the larger children whose child indices
overflow holds an entry greater than the last one. -/
def SinksInRange (cmp : Comparison T) (heap : Array T) : Prop :=
  ∀ p, 2 ^ 30 ≤ p → OnLargerPath cmp heap.pop p →
    ∀ last ∈ heap.back?, ∀ entry ∈ heap.pop[p]?, cmp.lt last entry = false

theorem popInt_eq_pop (hlaw : cmp.Lawful) {heap : Array T}
    (hheap : IsHeap cmp.NotLess heap) (hsize : heap.size ≤ 2 ^ 31)
    (hrange : SinksInRange cmp heap) : popInt cmp heap = pop cmp heap := by
  unfold popInt pop
  cases hback : heap.back? with
  | none => rfl
  | some last =>
      have hbase : (heap.setIfInBounds 0 last).pop.size ≤ 2 ^ 31 := by
        rw [size_pop_root, Array.size_pop]
        omega
      have hsinking := @sinking_pop T heap last
      refine hsinking.sinkInt_eq_sink hlaw fun q hreached => ?_
      rw [childIndicesFit_iff hbase]
      rcases (reached_iff hlaw hheap _ q).mp hreached with
        rfl | ⟨hpath, entry, hentry, hlt⟩
      · decide
      · by_contra hlarge
        have hnotLess := hrange q (by omega) hpath last hback entry hentry
        rw [hlt] at hnotLess
        cases hnotLess

theorem popInt_eq_none (hlaw : cmp.Lawful) {heap : Array T}
    (hheap : IsHeap cmp.NotLess heap) (hsize : heap.size ≤ 2 ^ 31)
    (hrange : ¬SinksInRange cmp heap) : popInt cmp heap = none := by
  unfold SinksInRange at hrange
  push Not at hrange
  rcases hrange with ⟨p, hlarge, hpath, last, hlast, entry, hentry, hlt⟩
  have hbase : (heap.setIfInBounds 0 last).pop.size ≤ 2 ^ 31 := by
    rw [size_pop_root, Array.size_pop]
    omega
  have hreached := (reached_iff hlaw hheap last p).mpr
    (Or.inr ⟨hpath, entry, hentry, by simpa using hlt⟩)
  unfold popInt
  simp only [Option.mem_def.mp hlast]
  exact (@sinking_pop T heap last).sinkInt_eq_none hlaw hreached
    (mt (childIndicesFit_iff hbase).mp (by omega))

theorem popInt_eq_iff (hlaw : cmp.Lawful) {heap : Array T}
    (hheap : IsHeap cmp.NotLess heap) (hne : 0 < heap.size)
    (hsize : heap.size ≤ 2 ^ 31) :
    popInt cmp heap = pop cmp heap ↔ SinksInRange cmp heap := by
  constructor
  · intro hsame
    by_contra hrange
    rcases pop_spec hlaw hheap hne with ⟨_, heap', _, _, hpop, _⟩
    rw [popInt_eq_none hlaw hheap hsize hrange, hpop] at hsame
    cases hsame
  · exact popInt_eq_pop hlaw hheap hsize

/-- A queue with at most `2 ^ 30 + 1` elements is small enough. -/
theorem sinksInRange_of_size_le {heap : Array T}
    (hsize : heap.size ≤ 2 ^ 30 + 1) : SinksInRange cmp heap := by
  intro p hlarge _ last _ entry hentry
  have hnone : heap.pop[p]? = none :=
    Array.getElem?_eq_none (by rw [Array.size_pop]; omega)
  rw [hnone] at hentry
  cases hentry

/-! ## Reachable queues -/

theorem isHeap_of_runCalls (hlaw : cmp.Lawful) {calls : List (Call T)}
    (hadm : Admissible 0 calls) {session : Session T}
    (hrun : runCalls cmp calls = some session) :
    IsHeap cmp.NotLess session.heap := by
  have hinitial : Session.Good cmp ⟨#[], []⟩ [] 0 :=
    ⟨fun i _ => .of_size_le (Nat.zero_le i), .refl _, rfl⟩
  rcases hinitial.run hlaw hadm with ⟨session', size, hrun', hgood⟩
  unfold runCalls at hrun
  obtain rfl : session' = session := Option.some.inj (hrun'.symm.trans hrun)
  exact hgood.heap

/-- With at most `2 ^ 31 - 1` elements a `push` never leaves the range of `int`,
and a `pop` does exactly when a position from `2 ^ 30` on lies on the path of
the larger children and has an entry greater than the last one. -/
theorem indices_fit_iff (hlaw : cmp.Lawful) {calls : List (Call T)}
    (hadm : Admissible 0 calls) {session : Session T}
    (hrun : runCalls cmp calls = some session)
    (hsize : session.heap.size ≤ 2 ^ 31 - 1) :
    ((∀ k, pushInt cmp session.heap k = push cmp session.heap k) ∧
        (0 < session.heap.size →
          popInt cmp session.heap = pop cmp session.heap)) ↔
      ∀ p, 2 ^ 30 ≤ p → OnLargerPath cmp session.heap.pop p →
        ∀ last ∈ session.heap.back?, ∀ entry ∈ session.heap.pop[p]?,
          cmp.lt last entry = false := by
  have hheap := isHeap_of_runCalls hlaw hadm hrun
  constructor
  · rintro ⟨_, hpop⟩ p hlarge hpath last hlast
    have hne : 0 < session.heap.size := by
      by_contra hempty
      rw [Array.eq_empty_of_size_eq_zero (by omega : session.heap.size = 0)]
        at hlast
      cases hlast
    exact (popInt_eq_iff hlaw hheap hne (by omega)).mp (hpop hne) p hlarge
      hpath last hlast
  · intro hall
    exact ⟨fun k => pushInt_eq hsize k,
      fun _ => popInt_eq_pop hlaw hheap (by omega) hall⟩

theorem push_eq_push {heap : Array T} {k : T}
    (hstop : ∀ above, heap[(heap.size - 1) / 2]? = some above →
      cmp.lt above k = false) : push cmp heap k = some (heap.push k) := by
  have hlast : (heap.push k).size - 1 = heap.size := by
    rw [Array.size_push, Nat.add_sub_cancel]
  unfold push
  simp only [hlast]
  rw [swim]
  split_ifs with hpositive
  · have hparent : (heap.size - 1) / 2 < heap.size := by omega
    have habove := Array.getElem?_eq_getElem hparent
    have hbelow := hstop _ habove
    have hread : (heap.push k)[(heap.size - 1) / 2]? =
        some heap[(heap.size - 1) / 2] := by
      rw [Array.getElem?_push_lt hparent]
    have hentry : (heap.push k)[heap.size]? = some k := Array.getElem?_push_size
    rw [hread, hentry]
    simp only [hbelow, Bool.false_eq_true, if_false]
  · rfl

theorem indices_fit_pair :
    (∀ k, pushInt intComparison #[2, 1] k = push intComparison #[2, 1] k) ∧
      (0 < (#[2, 1] : Array ℤ).size →
        popInt intComparison #[2, 1] = pop intComparison #[2, 1]) := by
  have hfirst : push intComparison #[] 2 = some #[2] :=
    push_eq_push fun above habove => by cases habove
  have hsecond : push intComparison #[2] 1 = some #[2, 1] :=
    push_eq_push fun above habove => by
      obtain rfl : 2 = above := Option.some.inj habove
      decide
  have hrun : runCalls intComparison [.push 2, .push 1] =
      some ⟨#[2, 1], []⟩ := by
    simp [runCalls, Session.step, hfirst, hsecond]
  have hadm : Admissible 0 ([.push 2, .push 1] : List (Call ℤ)) :=
    ⟨trivial, trivial, trivial⟩
  apply (indices_fit_iff intComparison_lawful hadm hrun (by decide)).mpr
  intro p hlarge _ last _ entry hentry
  have hnone : (#[2, 1] : Array ℤ).pop[p]? = none :=
    Array.getElem?_eq_none (by
      rw [Array.size_pop]
      exact le_trans (by decide) hlarge)
  rw [hnone] at hentry
  cases hentry

/-! ## A queue that is too large -/

/-- `n` times the value two, then one and two. -/
def manyTwos (n : ℕ) : Array ℤ :=
  ((Array.replicate n 2).push 1).push 2

theorem manyTwos_size (n : ℕ) : (manyTwos n).size = n + 2 := by
  simp [manyTwos]

theorem manyTwos_two {n q : ℕ} (hq : q < n) : (manyTwos n)[q]? = some 2 := by
  unfold manyTwos
  rw [Array.getElem?_push, Array.getElem?_push, Array.size_push,
    Array.size_replicate, if_neg (by omega), if_neg (by omega),
    Array.getElem?_replicate, if_pos hq]

theorem manyTwos_one (n : ℕ) : (manyTwos n)[n]? = some 1 := by
  unfold manyTwos
  rw [Array.getElem?_push, Array.getElem?_push, Array.size_push,
    Array.size_replicate, if_neg (by omega), if_pos rfl]

theorem manyTwos_last (n : ℕ) : (manyTwos n)[n + 1]? = some 2 := by
  unfold manyTwos
  rw [Array.getElem?_push, Array.size_push, Array.size_replicate, if_pos rfl]

/-- Of two equal children the left one is taken. -/
theorem onLargerPath_left {n k : ℕ} (hk : 2 ^ k < n) :
    OnLargerPath intComparison (manyTwos n) (2 ^ k - 1) := by
  induction k with
  | zero => exact .root
  | succ k ih =>
      have hone : 1 ≤ 2 ^ k := Nat.one_le_two_pow
      rw [pow_succ] at hk ⊢
      have hleft : 2 * (2 ^ k - 1) + 1 = 2 ^ k * 2 - 1 := by omega
      refine .child (ih (by omega)) ?_ ?_
      · rw [manyTwos_size]
        omega
      · simp only [largerChild]
        rw [if_pos (by rw [manyTwos_size]; omega), manyTwos_two (by omega),
          manyTwos_two (by omega), hleft]
        rfl

theorem onLargerPath_right {n : ℕ} (hn : n + 1 = 2 ^ 30) :
    OnLargerPath intComparison (manyTwos n) (2 ^ 30) := by
  have hbefore := @onLargerPath_left n 29 (by omega)
  have hleft : 2 * (2 ^ 29 - 1) + 1 = n := by omega
  have hright : n + 1 = 2 ^ 30 := hn
  refine .child hbefore ?_ ?_
  · rw [manyTwos_size]
    omega
  · simp only [largerChild]
    rw [hleft, if_pos (by rw [manyTwos_size]; omega), manyTwos_one,
      manyTwos_last, ← hright]
    rfl

theorem admissible_pushes (size : ℕ) (values : List T) :
    Admissible size (values.map Call.push) := by
  induction values generalizing size with
  | nil => trivial
  | cons value values ih => exact ⟨trivial, ih (size + 1)⟩

theorem admissible_pushes_pop {values : List T} {size : ℕ}
    (hne : 0 < size + values.length) :
    Admissible size (values.map Call.push ++ [.pop]) := by
  induction values generalizing size with
  | nil => exact ⟨hne, trivial⟩
  | cons value values ih =>
      refine ⟨trivial, ih ?_⟩
      simp only [Call.sizeAfter]
      omega

theorem push_behind_two {heap : Array ℤ} {k : ℤ} (hk : k ≤ 2)
    (hparent : ∀ above ∈ heap[(heap.size - 1) / 2]?, above = 2) :
    push intComparison heap k = some (heap.push k) := by
  apply push_eq_push
  intro above habove
  rw [hparent above habove]
  simpa [intComparison] using hk

theorem eq_two_of_mem_replicate {n q : ℕ} {entry : ℤ}
    (hentry : entry ∈ (Array.replicate n (2 : ℤ))[q]?) : entry = 2 := by
  rw [Array.getElem?_replicate] at hentry
  split_ifs at hentry
  · exact (Option.some.inj hentry).symm
  · cases hentry

theorem runCalls_twos (n : ℕ) :
    runCalls intComparison ((List.replicate n 2).map Call.push) =
      some ⟨Array.replicate n 2, []⟩ := by
  induction n with
  | zero => rfl
  | succ n ih =>
      have hpush : push intComparison (Array.replicate n 2) 2 =
          some (Array.replicate (n + 1) 2) := by
        rw [Array.replicate_succ]
        exact push_behind_two le_rfl fun _ => eq_two_of_mem_replicate
      unfold runCalls at ih ⊢
      rw [List.replicate_succ', List.map_append, List.foldlM_append, ih]
      simp [Session.step, hpush]

theorem runCalls_manyTwos {n : ℕ} (hn : 2 ≤ n) :
    runCalls intComparison
        ((List.replicate n (2 : ℤ) ++ [1, 2, 0]).map Call.push) =
      some ⟨(manyTwos n).push 0, []⟩ := by
  have hone : push intComparison (Array.replicate n 2) 1 =
      some ((Array.replicate n 2).push 1) :=
    push_behind_two (by omega) fun _ => eq_two_of_mem_replicate
  have htwo : push intComparison ((Array.replicate n 2).push 1) 2 =
      some (manyTwos n) := by
    apply push_behind_two le_rfl
    intro above habove
    rw [Array.size_push, Array.size_replicate, Array.getElem?_push,
      Array.size_replicate, if_neg (by omega)] at habove
    exact eq_two_of_mem_replicate habove
  have hzero : push intComparison (manyTwos n) 0 =
      some ((manyTwos n).push 0) := by
    apply push_behind_two (by omega)
    intro above habove
    rw [manyTwos_size, manyTwos_two (by omega)] at habove
    exact (Option.some.inj habove).symm
  have htwos := runCalls_twos n
  unfold runCalls at htwos ⊢
  rw [List.map_append, List.foldlM_append, htwos]
  simp [Session.step, hone, htwo, hzero]

theorem isHeap_manyTwos_push {n : ℕ} (hn : 2 ≤ n) :
    IsHeap intComparison.NotLess ((manyTwos n).push 0) :=
  isHeap_of_runCalls intComparison_lawful
    (admissible_pushes 0 (List.replicate n (2 : ℤ) ++ [1, 2, 0]))
    (runCalls_manyTwos hn)

/-- The last entry of a queue of `2 ^ 30 + 2` elements sinks to the position
`2 ^ 30`. -/
theorem not_indices_fit :
    ¬∀ (T : Type) (cmp : Comparison T), cmp.Lawful →
      ∀ (calls : List (Call T)) (session : Session T),
        Admissible 0 calls → runCalls cmp calls = some session →
        session.heap.size ≤ 2 ^ 31 - 1 →
          (∀ k, pushInt cmp session.heap k = push cmp session.heap k) ∧
            (0 < session.heap.size →
              popInt cmp session.heap = pop cmp session.heap) := by
  intro hall
  have hexists : ∃ n, n + 1 = 2 ^ 30 := ⟨2 ^ 30 - 1, by decide⟩
  rcases hexists with ⟨n, hn⟩
  have hsize : ((manyTwos n).push 0).size = n + 3 := by
    rw [Array.size_push, manyTwos_size]
  have hadm := admissible_pushes 0 (List.replicate n (2 : ℤ) ++ [1, 2, 0])
  have hrun := @runCalls_manyTwos n (by omega)
  have hfits := hall ℤ intComparison intComparison_lawful _ _ hadm hrun
    (by rw [hsize]; omega)
  have hheap := @isHeap_manyTwos_push n (by omega)
  have hpop := hfits.2 (by rw [hsize]; omega)
  have hlast := (popInt_eq_iff intComparison_lawful hheap
    (by rw [hsize]; omega) (by rw [hsize]; omega)).mp hpop (2 ^ 30) le_rfl
      (by rw [Array.pop_push]; exact onLargerPath_right hn) 0
      (by rw [Array.back?_push]; rfl) 2
      (by rw [Array.pop_push, ← hn]; exact manyTwos_last n)
  exact absurd hlast (by decide)

end Miscellaneous.PriorityQueue
